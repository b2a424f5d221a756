import Sinkhole.Number.Bounded

namespace Sinkhole.Row

variable {α : Type} [Add α] [Zero α]

/-- Drops the first `shift` entries, adds them to the entry that comes first then, and fills up with
empty entries at the end. The last entry always stays, so a long shift gathers the whole row. -/
def fold (shift : Nat) : List α → List α
  | [] => []
  | row =>
    let dropped := min shift (row.length - 1)
    (row.take (dropped + 1)).sum :: (row.drop (dropped + 1) ++ List.replicate dropped 0)

theorem length_fold (shift : Nat) (row : List α) : (fold shift row).length = row.length := by
  cases row with
  | nil => rfl
  | cons a as =>
    have dropped_le : min shift as.length ≤ as.length := Nat.min_le_right ..
    simp only [fold, List.length_cons, List.length_append, List.length_drop,
      List.length_replicate, Nat.add_sub_cancel]
    omega

end Sinkhole.Row

namespace Sinkhole

/-- The time window: buckets of `interval` seconds each, from the second `first` on, which is a
whole number of intervals after the epoch. `starts` holds the second at which each bucket starts,
and none of them is cut off or wrapped round. -/
structure Window where
  interval : UInt64
  first : UInt64
  starts : List UInt64
  interval_ne_zero : interval ≠ 0
  starts_ne_nil : starts ≠ []
  aligned : interval.toNat ∣ first.toNat
  starts_eq : starts.map UInt64.toNat =
    (List.range starts.length).map fun i => first.toNat + i * interval.toNat
  deriving DecidableEq

namespace Window

def length (w : Window) : Nat :=
  w.starts.length

def startOf (w : Window) (bucket : Nat) : UInt64 :=
  w.starts.getD bucket 0

/-- The second that lies `n` intervals after another. -/
def onward? (first interval : UInt64) (n : Nat) : Option UInt64 := do
  add? first (← times? n interval)

def startsFrom? (first interval : UInt64) (length : Nat) : Option (List UInt64) :=
  (List.range length).mapM (onward? first interval)

/-- The second at which the interval that holds an instant starts. -/
def intervalStart? (interval ms : UInt64) : Option UInt64 :=
  let seconds := ms / 1000
  sub? seconds (seconds % interval)

/-- The number of the interval that holds an instant, counted from the epoch. -/
def intervalOf (w : Window) (ms : UInt64) : Nat :=
  ms.toNat / 1000 / w.interval.toNat

def firstInterval (w : Window) : Nat :=
  w.first.toNat / w.interval.toNat

/-- The number of the interval of the last bucket. -/
def lastInterval (w : Window) : Nat :=
  w.firstInterval + (w.length - 1)

section
variable {first interval start : UInt64} {length n : Nat}

theorem onward?_eq_some_iff :
    onward? first interval n = some start ↔ first.toNat + n * interval.toNat = start.toNat := by
  have hlt := start.toNat_lt_size
  simp only [onward?, Option.bind_eq_bind, Option.bind_eq_some_iff, times?_eq_some_iff,
    add?_eq_some_iff]
  constructor
  · rintro ⟨product, hproduct, hsum⟩
    rw [hproduct, hsum]
  · intro h
    have hsmall : n * interval.toNat < UInt64.size := by omega
    refine ⟨UInt64.ofNat (n * interval.toNat), (UInt64.toNat_ofNat_of_lt' hsmall).symm, ?_⟩
    rw [UInt64.toNat_ofNat_of_lt' hsmall, h]

theorem onward?_eq_some (h : first.toNat + n * interval.toNat < UInt64.size) :
    onward? first interval n = some (UInt64.ofNat (first.toNat + n * interval.toNat)) := by
  rw [onward?_eq_some_iff, UInt64.toNat_ofNat_of_lt' h]

theorem startsFrom?_eq_some {starts : List UInt64}
    (h : startsFrom? first interval length = some starts) :
    starts.map UInt64.toNat =
      (List.range length).map fun i => first.toNat + i * interval.toNat := by
  unfold startsFrom? at h
  generalize List.range length = places at h ⊢
  induction places generalizing starts with
  | nil =>
    cases h
    rfl
  | cons i places ih =>
    simp only [List.mapM_cons, Option.bind_eq_bind, Option.bind_eq_some_iff,
      onward?_eq_some_iff] at h
    obtain ⟨start, hstart, rest, hrest, heq⟩ := h
    cases heq
    rw [List.map_cons, List.map_cons, hstart, ih hrest]

theorem length_startsFrom? {starts : List UInt64}
    (h : startsFrom? first interval length = some starts) : starts.length = length := by
  have hmap := congrArg List.length (startsFrom?_eq_some h)
  simpa using hmap

/-- If the last bucket starts at a word, so do all. -/
theorem isSome_startsFrom?_iff (hlength : 0 < length) :
    (startsFrom? first interval length).isSome ↔
      first.toNat + (length - 1) * interval.toNat < UInt64.size := by
  constructor
  · intro h
    obtain ⟨starts, hstarts⟩ := Option.isSome_iff_exists.1 h
    have hmap := startsFrom?_eq_some hstarts
    have hlast : (starts.map UInt64.toNat)[length - 1]? =
        some (first.toNat + (length - 1) * interval.toNat) := by
      rw [hmap, List.getElem?_map, List.getElem?_range (by omega)]
      rfl
    rw [List.getElem?_map] at hlast
    obtain ⟨start, -, hstart⟩ := Option.map_eq_some_iff.1 hlast
    rw [← hstart]
    exact start.toNat_lt_size
  · intro hfits
    -- No bucket starts later than the last one.
    have hall : ∀ places : List Nat, (∀ i ∈ places, i < length) →
        (places.mapM (onward? first interval)).isSome := by
      intro places hplaces
      induction places with
      | nil => rfl
      | cons i places ih =>
        have hle : i * interval.toNat ≤ (length - 1) * interval.toNat :=
          Nat.mul_le_mul_right _ (by have := hplaces i List.mem_cons_self; omega)
        obtain ⟨rest, hrest⟩ := Option.isSome_iff_exists.1
          (ih fun j hj => hplaces j (List.mem_cons_of_mem _ hj))
        rw [List.mapM_cons, onward?_eq_some (by omega), hrest]
        rfl
    exact hall _ fun i hi => List.mem_range.1 hi

/-- An interval starts no later than the instants that it holds. -/
theorem intervalStart_lt (interval ms : UInt64) :
    ms.toNat / 1000 / interval.toNat * interval.toNat < UInt64.size := by
  have hle : ms.toNat / 1000 / interval.toNat * interval.toNat ≤ ms.toNat / 1000 :=
    Nat.div_mul_le_self _ _
  have hlt := ms.toNat_lt_size
  omega

theorem intervalStart?_eq_some (interval ms : UInt64) : ∃ start,
    intervalStart? interval ms = some start ∧
      start.toNat = ms.toNat / 1000 / interval.toNat * interval.toNat := by
  have hseconds : (ms / 1000).toNat = ms.toNat / 1000 := UInt64.toNat_div ms 1000
  have hmod : (ms / 1000 % interval).toNat = ms.toNat / 1000 % interval.toNat := by
    rw [UInt64.toNat_mod, hseconds]
  have hsplit := Nat.div_add_mod (ms.toNat / 1000) interval.toNat
  rw [Nat.mul_comm] at hsplit
  have hsmall := intervalStart_lt interval ms
  refine ⟨UInt64.ofNat _, sub?_eq_some_iff.2 ?_, UInt64.toNat_ofNat_of_lt' hsmall⟩
  rw [UInt64.toNat_ofNat_of_lt' hsmall, hseconds, hmod]
  omega

end

variable (w : Window)

theorem interval_pos : 0 < w.interval.toNat :=
  Nat.pos_of_ne_zero fun h => w.interval_ne_zero (UInt64.toNat_inj.1 h)

theorem length_pos : 0 < w.length :=
  List.length_pos_iff.2 w.starts_ne_nil

theorem toNat_startOf {i : Nat} (hi : i < w.length) :
    (w.startOf i).toNat = w.first.toNat + i * w.interval.toNat := by
  have hlt : i < w.starts.length := hi
  have hmap := congrArg (·[i]?) w.starts_eq
  rw [List.getElem?_map, List.getElem?_map, List.getElem?_range hlt,
    List.getElem?_eq_getElem hlt] at hmap
  rw [startOf, List.getD_eq_getElem?_getD, List.getElem?_eq_getElem hlt]
  exact Option.some_inj.1 hmap

theorem first_eq : w.first.toNat = w.firstInterval * w.interval.toNat :=
  (Nat.div_mul_cancel w.aligned).symm

/-- In whole intervals nothing wraps round, and the last bucket starts at a second that is a word.
-/
theorem last_eq :
    w.first.toNat + (w.length - 1) * w.interval.toNat = w.lastInterval * w.interval.toNat := by
  rw [lastInterval, Nat.add_mul, ← w.first_eq]

theorem last_lt : w.lastInterval * w.interval.toNat < UInt64.size := by
  have hpos := w.length_pos
  rw [← w.last_eq, ← w.toNat_startOf (by omega)]
  exact UInt64.toNat_lt_size _

theorem eq_of_lastInterval_eq {w w' : Window} (hinterval : w'.interval = w.interval)
    (hlength : w'.length = w.length) (hlast : w'.lastInterval = w.lastInterval) : w' = w := by
  have hnumber : w'.firstInterval = w.firstInterval := by
    unfold lastInterval at hlast
    omega
  have hfirst : w'.first = w.first := by
    apply UInt64.toNat_inj.1
    rw [w'.first_eq, w.first_eq, hnumber, hinterval]
  have hstarts : w'.starts = w.starts := by
    have hsize : w'.starts.length = w.starts.length := hlength
    apply List.map_inj_right (fun _ _ => UInt64.toNat_inj.1) |>.1
    rw [w'.starts_eq, w.starts_eq, hsize, hfirst, hinterval]
  cases w
  cases w'
  simp_all

/-- The window of so many buckets from a second on. There is none if a bucket starts at no word. -/
def from? (interval first : UInt64) (length : Nat) (interval_ne_zero : interval ≠ 0)
    (length_pos : 0 < length) (aligned : interval.toNat ∣ first.toNat) : Option Window :=
  (startsFrom? first interval length).attach.map fun ⟨starts, made⟩ =>
    { interval, first, starts, interval_ne_zero, aligned
      starts_ne_nil := by
        rw [← List.length_pos_iff, length_startsFrom? made]
        exact length_pos
      starts_eq := by
        rw [length_startsFrom? made]
        exact startsFrom?_eq_some made }

section
variable {interval first : UInt64} {length : Nat} {interval_ne_zero : interval ≠ 0}
  {length_pos : 0 < length} {aligned : interval.toNat ∣ first.toNat}

theorem from?_eq_some {w : Window}
    (h : from? interval first length interval_ne_zero length_pos aligned = some w) :
    w.interval = interval ∧ w.first = first ∧ w.length = length := by
  obtain ⟨⟨starts, made⟩, -, rfl⟩ := Option.map_eq_some_iff.1 h
  exact ⟨rfl, rfl, length_startsFrom? made⟩

theorem isSome_from?_iff :
    (from? interval first length interval_ne_zero length_pos aligned).isSome ↔
      first.toNat + (length - 1) * interval.toNat < UInt64.size := by
  rw [from?, Option.isSome_map, Option.isSome_attach, isSome_startsFrom?_iff length_pos]

end

/-- The second at which the first bucket of a new window starts. It is cut off at the epoch. -/
def firstStart? (interval : UInt64) (length : Nat) (now : UInt64) : Option UInt64 := do
  let newest ← intervalStart? interval now
  let span ← times? (length - 1) interval
  return satSub newest span

theorem firstStart?_eq_some_iff {interval now first : UInt64} {length : Nat} :
    firstStart? interval length now = some first ↔
      (length - 1) * interval.toNat < UInt64.size ∧
        first.toNat = (now.toNat / 1000 / interval.toNat - (length - 1)) * interval.toNat := by
  obtain ⟨newest, hnewest, hstart⟩ := intervalStart?_eq_some interval now
  simp only [firstStart?, hnewest, Option.bind_eq_bind, Option.bind_some, Option.bind_eq_some_iff,
    Option.pure_def, Option.some_inj, times?_eq_some_iff]
  have hsub : ∀ span : UInt64, (length - 1) * interval.toNat = span.toNat →
      (satSub newest span).toNat =
        (now.toNat / 1000 / interval.toNat - (length - 1)) * interval.toNat := by
    intro span hspan
    rw [toNat_satSub, hstart, ← hspan, ← Nat.sub_mul]
  constructor
  · rintro ⟨span, hspan, rfl⟩
    exact ⟨hspan ▸ span.toNat_lt_size, hsub span hspan⟩
  · rintro ⟨hfits, hfirst⟩
    have hspan := (UInt64.toNat_ofNat_of_lt' hfits).symm
    refine ⟨UInt64.ofNat ((length - 1) * interval.toNat), hspan, UInt64.toNat_inj.1 ?_⟩
    rw [hsub _ hspan, hfirst]

/-- A window whose last bucket holds `now`, or whose first one starts at the epoch. -/
def madeFor? (interval : UInt64) (length : Nat) (now : UInt64) (interval_ne_zero : interval ≠ 0)
    (length_pos : 0 < length) : Option Window := do
  let ⟨first, hfirst⟩ ← (firstStart? interval length now).attach
  from? interval first length interval_ne_zero length_pos (by
    rw [(firstStart?_eq_some_iff.1 hfirst).2]
    exact Nat.dvd_mul_left _ _)

/-- The window that is made for an instant. An interval of no length counts as a second, and there
is one bucket at least. -/
def ending? (interval : UInt64) (length : Nat) (now : UInt64) : Option Window :=
  madeFor? (if interval = 0 then 1 else interval) (max length 1) now
    (by split <;> simp_all) (by omega)

section
variable {interval : UInt64} {length : Nat} (hinterval : interval ≠ 0) (hlength : 0 < length)
  (now : UInt64)
include hinterval hlength

theorem ending?_eq :
    ending? interval length now = madeFor? interval length now hinterval hlength := by
  simp only [ending?, if_neg hinterval, Nat.max_eq_left hlength]

theorem ending?_eq_some {now : UInt64} {w : Window} (h : ending? interval length now = some w) :
    w.interval = interval ∧ w.length = length ∧
      w.lastInterval = max (now.toNat / 1000 / interval.toNat) (length - 1) := by
  rw [ending?_eq hinterval hlength] at h
  obtain ⟨⟨first, hfirst⟩, -, hmade⟩ := Option.bind_eq_some_iff.1 h
  obtain ⟨rfl, rfl, rfl⟩ := from?_eq_some hmade
  refine ⟨rfl, rfl, ?_⟩
  rw [lastInterval, firstInterval, (firstStart?_eq_some_iff.1 hfirst).2,
    Nat.mul_div_cancel _ w.interval_pos]
  omega

/-- A window is made unless its span is no word. -/
theorem isSome_ending?_iff :
    (ending? interval length now).isSome ↔ (length - 1) * interval.toNat < UInt64.size := by
  rw [ending?_eq hinterval hlength]
  constructor
  · intro h
    obtain ⟨w, hw⟩ := Option.isSome_iff_exists.1 h
    obtain ⟨⟨first, hfirst⟩, -, -⟩ := Option.bind_eq_some_iff.1 hw
    exact (firstStart?_eq_some_iff.1 hfirst).1
  · intro hfits
    -- Either the first bucket starts at the epoch, or the last one holds `now`.
    have hnewest := intervalStart_lt interval now
    have hsum : (now.toNat / 1000 / interval.toNat - (length - 1)) * interval.toNat +
        (length - 1) * interval.toNat < UInt64.size := by
      rw [Nat.sub_mul]
      generalize (length - 1) * interval.toNat = span at hfits
      omega
    have hstart := UInt64.toNat_ofNat_of_lt' (Nat.lt_of_le_of_lt (Nat.le_add_right _ _) hsum)
    have hfirst := firstStart?_eq_some_iff.2 ⟨hfits, hstart⟩
    have hlast : (from? interval _ length hinterval hlength
        (by rw [hstart]; exact Nat.dvd_mul_left _ _)).isSome :=
      isSome_from?_iff.2 (by rw [hstart]; exact hsum)
    obtain ⟨w, hw⟩ := Option.isSome_iff_exists.1 hlast
    have hmade : madeFor? interval length now hinterval hlength = some w :=
      Option.bind_eq_some_iff.2 ⟨⟨_, hfirst⟩, Option.attach_eq_some_iff.2 hfirst, hw⟩
    rw [hmade]
    rfl

end

/-- The first second of all. -/
instance : Inhabited Window where
  default :=
    { interval := 1, first := 0, starts := [0], interval_ne_zero := by decide
      starts_ne_nil := by decide, aligned := by decide, starts_eq := by decide }

/-- The window that is made for an instant, where one can be made. -/
def ending (interval : UInt64) (length : Nat) (now : UInt64) : Window :=
  (ending? interval length now).getD default

theorem ending?_eq_ending {interval now : UInt64} {length : Nat}
    (made : (ending? interval length now).isSome) :
    ending? interval length now = some (ending interval length now) := by
  obtain ⟨w, hw⟩ := Option.isSome_iff_exists.1 made
  rw [ending, hw]
  rfl

/-! ### Asking a window, and moving it -/

/-- The number of whole intervals from a second to the interval that holds an instant, which is zero
for earlier instants. -/
def intervalsPast? (interval start ms : UInt64) : Option Nat := do
  let newest ← intervalStart? interval ms
  if newest ≤ start then
    return 0
  else
    return ((← sub? newest start) / interval).toNat

/-- The bucket of an instant. Instants before the window count for its first bucket, and instants
after it for its last. -/
def bucketOf? (ms : UInt64) : Option Nat := do
  return min (← intervalsPast? w.interval w.first ms) (w.length - 1)

/-- How many buckets the window has to move until its last bucket holds `now`. -/
def shiftTo? (now : UInt64) : Option Nat := do
  intervalsPast? w.interval (← onward? w.first w.interval (w.length - 1)) now

/-- Up to the last interval of the window, or to the first, what is asked for is a word. -/
theorem intervalsPast?_eq {start : UInt64} {n : Nat} (hstart : start.toNat = n * w.interval.toNat)
    (ms : UInt64) : intervalsPast? w.interval start ms = some (w.intervalOf ms - n) := by
  obtain ⟨newest, hnewest, heq⟩ := intervalStart?_eq_some w.interval ms
  have hinterval : newest.toNat = w.intervalOf ms * w.interval.toNat := heq
  have hle : newest ≤ start ↔ w.intervalOf ms ≤ n := by
    rw [UInt64.le_iff_toNat_le, hinterval, hstart]
    exact Nat.mul_le_mul_right_iff w.interval_pos
  simp only [intervalsPast?, hnewest, Option.bind_eq_bind, Option.bind_some]
  split
  · rename_i h
    rw [Nat.sub_eq_zero_of_le (hle.1 h)]
    rfl
  · rename_i h
    have hlt : start ≤ newest := by
      rw [UInt64.le_iff_toNat_le] at h ⊢
      omega
    rw [sub?, if_pos hlt]
    show some _ = some _
    rw [UInt64.toNat_div, UInt64.toNat_sub_of_le _ _ hlt, hinterval, hstart, ← Nat.sub_mul,
      Nat.mul_div_cancel _ w.interval_pos]

theorem bucketOf?_eq (ms : UInt64) :
    w.bucketOf? ms = some (min (w.intervalOf ms - w.firstInterval) (w.length - 1)) := by
  rw [bucketOf?, w.intervalsPast?_eq w.first_eq]
  rfl

theorem shiftTo?_eq (now : UInt64) : w.shiftTo? now = some (w.intervalOf now - w.lastInterval) := by
  have hfits : w.first.toNat + (w.length - 1) * w.interval.toNat < UInt64.size :=
    w.last_eq ▸ w.last_lt
  rw [shiftTo?, onward?_eq_some hfits]
  refine w.intervalsPast?_eq ?_ now
  rw [UInt64.toNat_ofNat_of_lt' hfits, w.last_eq]

def bucketOf (ms : UInt64) : Nat :=
  (w.bucketOf? ms).get (by rw [bucketOf?_eq]; rfl)

def shiftTo (now : UInt64) : Nat :=
  (w.shiftTo? now).get (by rw [shiftTo?_eq]; rfl)

theorem bucketOf_eq (ms : UInt64) :
    w.bucketOf ms = min (w.intervalOf ms - w.firstInterval) (w.length - 1) := by
  simp only [bucketOf, bucketOf?_eq, Option.get_some]

theorem shiftTo_eq (now : UInt64) : w.shiftTo now = w.intervalOf now - w.lastInterval := by
  simp only [shiftTo, shiftTo?_eq, Option.get_some]

theorem bucketOf_lt_length (ms : UInt64) : w.bucketOf ms < w.length := by
  have := w.length_pos
  rw [bucketOf_eq]
  omega

/-- Moved as far as an instant demands, the last bucket starts at a second that is a word: either it
was the last one before, or it holds the instant. -/
theorem moved_lt (now : UInt64) :
    w.first.toNat + (w.shiftTo now + (w.length - 1)) * w.interval.toNat < UInt64.size := by
  have hsum : w.firstInterval + (w.shiftTo now + (w.length - 1)) =
      max w.lastInterval (w.intervalOf now) := by
    rw [shiftTo_eq, lastInterval]
    omega
  have hlast := w.last_lt
  have hnow : w.intervalOf now * w.interval.toNat < UInt64.size :=
    intervalStart_lt w.interval now
  rw [w.first_eq, ← Nat.add_mul, hsum]
  rcases Nat.le_total w.lastInterval (w.intervalOf now) with h | h
  · rwa [Nat.max_eq_right h]
  · rwa [Nat.max_eq_left h]

/-- Nothing is cut off where the first bucket moves to. -/
theorem toNat_moved (now : UInt64) :
    (satAdd w.first (satMul (w.shiftTo now) w.interval)).toNat =
      (w.firstInterval + w.shiftTo now) * w.interval.toNat := by
  have hmoved := w.moved_lt now
  rw [Nat.add_mul, UInt64.size] at hmoved
  rw [toNat_satAdd, toNat_satMul, Nat.add_mul, ← w.first_eq]
  omega

/-- The window moved forward until its last bucket holds `now`, if it has to move. The starts of the
buckets are computed anew. -/
def slideTo? (now : UInt64) : Option Window :=
  let shift := w.shiftTo now
  if shift = 0 then some w
  else
    from? w.interval (satAdd w.first (satMul shift w.interval)) w.length w.interval_ne_zero
      w.length_pos (by rw [w.toNat_moved now]; exact Nat.dvd_mul_left _ _)

theorem isSome_slideTo? (now : UInt64) : (w.slideTo? now).isSome := by
  have hmoved := w.moved_lt now
  unfold slideTo?
  dsimp only
  split
  · rfl
  · rw [isSome_from?_iff, w.toNat_moved, Nat.add_mul, ← w.first_eq]
    rw [Nat.add_mul] at hmoved
    omega

def slideTo (now : UInt64) : Window :=
  (w.slideTo? now).get (w.isSome_slideTo? now)

theorem slideTo?_eq (now : UInt64) : w.slideTo? now = some (w.slideTo now) := by
  rw [slideTo, Option.some_get]

theorem slideTo_of_shiftTo_eq_zero {now : UInt64} (h : w.shiftTo now = 0) : w.slideTo now = w := by
  simp only [slideTo, slideTo?, h, if_true, Option.get_some]

theorem slideTo_spec (now : UInt64) : (w.slideTo now).interval = w.interval ∧
    (w.slideTo now).length = w.length ∧
    (w.slideTo now).firstInterval = w.firstInterval + w.shiftTo now := by
  by_cases h : w.shiftTo now = 0
  · rw [w.slideTo_of_shiftTo_eq_zero h, h]
    exact ⟨rfl, rfl, rfl⟩
  · -- The window is made anew at the start that the move leads to.
    have hmade := w.slideTo?_eq now
    simp only [slideTo?, if_neg h] at hmade
    obtain ⟨hinterval, hfirst, hlength⟩ := from?_eq_some hmade
    refine ⟨hinterval, hlength, ?_⟩
    rw [firstInterval, hinterval, hfirst, w.toNat_moved, Nat.mul_div_cancel _ w.interval_pos]

@[simp] theorem interval_slideTo (now : UInt64) : (w.slideTo now).interval = w.interval :=
  (w.slideTo_spec now).1

@[simp] theorem length_slideTo (now : UInt64) : (w.slideTo now).length = w.length :=
  (w.slideTo_spec now).2.1

theorem firstInterval_slideTo (now : UInt64) :
    (w.slideTo now).firstInterval = w.firstInterval + w.shiftTo now :=
  (w.slideTo_spec now).2.2

-- The lemmas above say what these compute, and no unifier should run them.
attribute [irreducible] ending? bucketOf shiftTo slideTo

end Window

end Sinkhole
