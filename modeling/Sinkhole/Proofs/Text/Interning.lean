import Mathlib.Algebra.BigOperators.Group.List.Basic
import Sinkhole.Proofs.Text.Bytes

namespace Sinkhole

/-- A text that was handed in, and the offset that was answered. -/
structure Interning where
  text : String
  answer : Except TextPool.Exhausted Nat

/-- What a text takes of the arena. The empty text is there already. -/
def Interning.placed? : Interning → Option PooledText
  | ⟨s, .ok offset⟩ =>
    if TextPool.beforeNul s = "" then none else some ⟨offset, TextPool.beforeNul s⟩
  | ⟨_, .error _⟩ => none

namespace TextPool

variable {p p' : TextPool} {s : String} {t : PooledText}

def interned (p : TextPool) (s : String) : TextPool :=
  match p.intern s with
  | .ok (_, p') => p'
  | .error _ => p

def internings : List String → TextPool → List Interning
  | [], _ => []
  | s :: rest, p => ⟨s, (p.intern s).map (·.1.offset)⟩ :: internings rest (p.interned s)

def internAll (texts : List String) (p : TextPool) : TextPool :=
  texts.foldl interned p

/-- Whether the arena has no place for the part of a text before its first NUL. -/
def Lacks (p : TextPool) (s : String) : Prop :=
  p.limit < p.used + ((beforeNul s).utf8ByteSize + 1) ∨
    maxOffset < p.used + ((beforeNul s).utf8ByteSize + 1)

inductive Interns (p : TextPool) (s : String) :
    Except Exhausted (PooledText × TextPool) → Prop where
  | empty (cut : beforeNul s = "") : Interns p s (.ok ({}, p))
  | refused (cut : beforeNul s ≠ "") (lacks : p.Lacks s) :
      Interns p s (.error ⟨p.used, (beforeNul s).utf8ByteSize + 1, p.limit⟩)
  | placed (cut : beforeNul s ≠ "") (fits : ¬ p.Lacks s) :
      Interns p s (.ok (⟨p.used, beforeNul s⟩, { p with
        used := p.used + ((beforeNul s).utf8ByteSize + 1)
        placed := ⟨p.used, beforeNul s⟩ :: p.placed }))

theorem interns (p : TextPool) (s : String) : Interns p s (p.intern s) := by
  unfold intern
  dsimp only
  split
  · rename_i cut
    exact .empty cut
  · rename_i cut
    split
    · rename_i lacks
      exact .refused cut lacks
    · rename_i fits
      exact .placed cut fits

theorem refused_iff : (∃ full, p.intern s = .error full) ↔ beforeNul s ≠ "" ∧ p.Lacks s := by
  have h := interns p s
  constructor
  · rintro ⟨full, hfull⟩
    rw [hfull] at h
    cases h with
    | refused cut lacks => exact ⟨cut, lacks⟩
  · rintro ⟨cut, lacks⟩
    generalize p.intern s = r at h
    cases h with
    | empty hempty => exact absurd hempty cut
    | refused => exact ⟨_, rfl⟩
    | placed _ fits => exact absurd lacks fits

theorem bytes_of_intern (packed : Packed p.placed p.used) (h : p.intern s = .ok (t, p'))
    (cut : beforeNul s ≠ "") :
    t.offset = p.bytes.length ∧
      p'.bytes = p.bytes ++ (Text.encode (beforeNul s).toList ++ [0]) := by
  have hi := interns p s
  rw [h] at hi
  cases hi with
  | empty hempty => exact absurd hempty cut
  | placed => exact ⟨packed.length_laidOut.symm, rfl⟩

/-- A pool agrees with what was answered so far. -/
structure Recalls (limit : Nat) (calls : List Interning) (p : TextPool) : Prop where
  wellFormed : p.WellFormed
  packed : Packed p.placed p.used
  placed_eq : p.placed = (calls.filterMap Interning.placed?).reverse
  empty_eq : ∀ s offset, ⟨s, .ok offset⟩ ∈ calls → beforeNul s = "" → offset = 0
  limit_eq : p.limit = limit
  used_le : p.used ≤ max limit 1

theorem recalls_empty (limit : Nat) : Recalls limit [] { limit } where
  wellFormed := wellFormed_empty limit
  packed := .nil
  placed_eq := rfl
  empty_eq _ _ h := absurd h List.not_mem_nil
  limit_eq := rfl
  used_le := le_max_right limit 1

namespace Recalls

variable {limit : Nat} {calls : List Interning}

theorem interned (r : Recalls limit calls p) (s : String) :
    Recalls limit (calls ++ [⟨s, (p.intern s).map (·.1.offset)⟩]) (p.interned s) := by
  have hi := interns p s
  have w := r.wellFormed
  unfold TextPool.interned
  cases hr : p.intern s with
  | error full =>
    refine { r with placed_eq := ?_, empty_eq := fun s' offset h => ?_ }
    · rw [r.placed_eq, List.filterMap_append]
      simp [Except.map, Interning.placed?]
    · refine r.empty_eq s' offset ((List.mem_append.1 h).resolve_right fun h => ?_)
      cases List.mem_singleton.1 h
  | ok answer =>
    obtain ⟨t, p'⟩ := answer
    have w' := w.intern hr
    rw [hr] at hi
    cases hi with
    | empty cut =>
      refine { r with placed_eq := ?_, empty_eq := fun s' offset h cut' => ?_ }
      · rw [r.placed_eq, List.filterMap_append]
        simp [Except.map, Interning.placed?, cut]
      · rcases List.mem_append.1 h with h | h
        · exact r.empty_eq s' offset h cut'
        · cases List.mem_singleton.1 h
          rfl
    | placed cut fits =>
      refine ⟨w', .cons r.packed (plain_beforeNul s) cut, ?_, fun s' offset h cut' => ?_,
        r.limit_eq, ?_⟩
      · rw [r.placed_eq, List.filterMap_append]
        simp [Except.map, Interning.placed?, cut]
      · rcases List.mem_append.1 h with h | h
        · exact r.empty_eq s' offset h cut'
        · cases List.mem_singleton.1 h
          exact absurd cut' cut
      · have hroom : p.used + ((beforeNul s).utf8ByteSize + 1) ≤ p.limit := by
          unfold Lacks at fits
          omega
        exact (hroom.trans_eq r.limit_eq).trans (le_max_left limit 1)

theorem internAll (r : Recalls limit calls p) (texts : List String) :
    Recalls limit (calls ++ internings texts p) (internAll texts p) := by
  induction texts generalizing calls p with
  | nil => simpa [internings, TextPool.internAll] using r
  | cons s rest ih =>
    have hrest := ih (r.interned s)
    rwa [List.append_assoc, List.singleton_append] at hrest

theorem textAt_eq (r : Recalls limit calls p) {offset : Nat} (h : ⟨s, .ok offset⟩ ∈ calls) :
    p.textAt offset = beforeNul s ∧ (offset = 0 ↔ beforeNul s = "") := by
  by_cases cut : beforeNul s = ""
  · have hzero := r.empty_eq s offset h cut
    subst hzero
    have htext : p.textAt 0 = "" := r.wellFormed.textAt_eq (t := {}) (.inl rfl)
    rw [htext, cut]
    exact ⟨rfl, iff_of_true rfl rfl⟩
  · have hplaced : ⟨offset, beforeNul s⟩ ∈ p.placed := by
      rw [r.placed_eq, List.mem_reverse, List.mem_filterMap]
      exact ⟨_, h, if_neg cut⟩
    have hpos := (r.wellFormed.within _ hplaced).1
    exact ⟨r.wellFormed.textAt_eq (.inr hplaced), iff_of_false hpos.ne' cut⟩

theorem nodup_offsets (r : Recalls limit calls p) :
    ((calls.filterMap Interning.placed?).map (·.offset)).Nodup := by
  rw [← List.reverse_reverse (calls.filterMap _), ← r.placed_eq, List.map_reverse,
    List.Nodup, List.pairwise_reverse, List.pairwise_map]
  exact r.wellFormed.ordered.imp fun h => h.ne

theorem used_eq (r : Recalls limit calls p) :
    p.used = 1 + ((calls.filterMap Interning.placed?).map fun t => t.text.utf8ByteSize + 1).sum := by
  have hused := r.packed.used_eq
  rwa [r.placed_eq, List.map_reverse, List.sum_reverse] at hused

end Recalls

theorem suffix_of_dropBytes {n : Nat} {cs rest : List Char} (h : dropBytes n cs = some rest) :
    rest <:+ cs := by
  fun_induction dropBytes n cs with
  | case1 cs =>
    cases h
    exact List.suffix_rfl
  | case2 => cases h
  | case3 n c cs hsize ih => exact (ih h).trans (List.suffix_cons c cs)
  | case4 => cases h

/-- Whatever the offset, the pool tells the end of a text that it holds, or nothing. -/
theorem textAt_cases (p : TextPool) (offset : Nat) :
    p.textAt offset = "" ∨ ∃ t ∈ p.placed, (p.textAt offset).toList <:+ t.text.toList := by
  unfold textAt
  split
  · exact .inl rfl
  · split
    · exact .inl rfl
    · rename_i t hfind
      cases hdrop : dropBytes (offset - t.offset) t.text.toList with
      | none => exact .inl rfl
      | some rest =>
        refine .inr ⟨t, List.mem_of_find?_eq_some hfind, ?_⟩
        rw [Option.getD_some, String.toList_ofList]
        exact suffix_of_dropBytes hdrop

/-- Whatever is handed in and in whatever order, each offset that was answered tells the text that
it was answered for, up to the first NUL. No two texts share their bytes, the bytes in use are those
of the texts, within the budget, and a text is refused only where it would pass it, which leaves the
pool as it was. An offset that was never answered tells nothing but the end of some text. The pool
tells of an offset what the bytes of its arena tell. -/
theorem pool_tells_what_was_interned (limit : Nat) (texts : List String) :
    let calls := internings texts { limit }
    let p := internAll texts { limit }
    (∀ s offset, ⟨s, .ok offset⟩ ∈ calls →
      p.textAt offset = beforeNul s ∧ (offset = 0 ↔ beforeNul s = "")) ∧
    ((calls.filterMap Interning.placed?).map (·.offset)).Nodup ∧
    p.used = 1 + ((calls.filterMap Interning.placed?).map fun t => t.text.utf8ByteSize + 1).sum ∧
    p.used ≤ max limit 1 ∧
    (∀ s, (∃ full, p.intern s = .error full) ↔ beforeNul s ≠ "" ∧
      (limit < p.used + ((beforeNul s).utf8ByteSize + 1) ∨
        4294967295 < p.used + ((beforeNul s).utf8ByteSize + 1))) ∧
    (∀ s full, p.intern s = .error full → p.interned s = p) ∧
    (∀ offset, p.textAt offset = "" ∨ ∃ s o, ⟨s, .ok o⟩ ∈ calls ∧
      (p.textAt offset).toList <:+ (beforeNul s).toList) ∧
    p.bytes.length = p.used ∧
    (∀ s t p', p.intern s = .ok (t, p') → beforeNul s ≠ "" → t.offset = p.bytes.length ∧
      p'.bytes = p.bytes ++ (Text.encode (beforeNul s).toList ++ [0])) ∧
    ∀ offset, p.textAt offset = Text.readAt p.bytes offset := by
  intro calls p
  have r : Recalls limit calls p := (recalls_empty limit).internAll texts
  refine ⟨fun s offset h => r.textAt_eq h, r.nodup_offsets, r.used_eq, r.used_le, fun s => ?_,
    fun s full h => ?_, fun offset => ?_, r.packed.length_laidOut,
    fun s t p' h cut => bytes_of_intern r.packed h cut, textAt_eq_readAt r.packed⟩
  · rw [refused_iff, Lacks, r.limit_eq]
    rfl
  · rw [TextPool.interned, h]
  · refine (p.textAt_cases offset).imp_right ?_
    rintro ⟨t, ht, hsuffix⟩
    rw [r.placed_eq, List.mem_reverse, List.mem_filterMap] at ht
    obtain ⟨⟨s, answer⟩, hcall, hplaced⟩ := ht
    cases answer with
    | error full => cases hplaced
    | ok o =>
      refine ⟨s, o, hcall, ?_⟩
      -- The text that the offset falls into was handed in at some call.
      rw [Interning.placed?] at hplaced
      split at hplaced
      · cases hplaced
      · cases hplaced
        exact hsuffix

/-- An offset inside a character tells nothing. -/
example :
    let p := internAll ["ab", "é"] { limit := 7 }
    p.textAt 2 = "b" ∧ p.textAt 4 = "é" ∧ p.textAt 5 = "" := by
  decide +kernel

end TextPool

end Sinkhole
