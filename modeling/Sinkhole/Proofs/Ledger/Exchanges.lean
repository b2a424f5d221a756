import Sinkhole.Proofs.Ledger.Recount

namespace Sinkhole

open scoped Words

/-- What a query adds to the number of those that satisfy `p`. Where there is none it adds nothing.
-/
def Query.stake (p : Query → Bool) (q? : Option Query) : Int64 :=
  if q?.any p then 1 else 0

/-- How the number of queries that satisfy `p` changes when one gives way to another, or to none. -/
def Query.shift (p : Query → Bool) (q : Query) (q? : Option Query) : Int64 :=
  stake p q? - stake p (some q)

theorem Query.shift_self (p : Query → Bool) (q : Query) : q.shift p (some q) = 0 :=
  sub_self _

theorem Query.shift_add_shift (p : Query → Bool) (q q' : Query) (q? : Option Query) :
    q.shift p (some q') + q'.shift p q? = q.shift p q? := by
  unfold shift
  abel

theorem eq_of_positions {ι : Type} {n : ℕ} {position : ι → Fin n} (all : List ι)
    (hall : ∀ i, ∃ x ∈ all, position x = i) {v w : Vector Int64 n}
    (h : ∀ x, v[position x] = w[position x]) : v = w := by
  apply Vector.ext
  intro i hi
  obtain ⟨x, -, hx⟩ := hall ⟨i, hi⟩
  have hvalue := h x
  simp only [Fin.getElem_fin, hx] at hvalue
  exact hvalue

namespace Ledger

variable {l l' : Ledger}

/-- Two ledgers with the same numbers over one window are the same. -/
theorem eq_of_view (hwindow : l'.window = l.window) (hlists : l'.tally.lists = l.tally.lists)
    (hview : ∀ v, l'.view v = l.view v) : l' = l := by
  have hstatuses : l'.tally.statuses = l.tally.statuses :=
    eq_of_positions Status.all (by decide) fun s => hview (.ofStatus s)
  have htypes : l'.tally.types = l.tally.types :=
    eq_of_positions RecordType.all (by decide) fun t => hview (.ofType t)
  have hreplies : l'.tally.replies = l.tally.replies :=
    eq_of_positions ReplyKind.all (by decide) fun r => hview (.ofReply r)
  have hbuckets : l'.buckets = l.buckets := by
    have hlength : l'.buckets.length = l.buckets.length := by
      rw [l'.length_buckets, l.length_buckets, hwindow]
    refine List.ext_getElem hlength fun b hb' hb => ?_
    have hrow : ∀ {f : Bucket → Int64}, l'.row f b = l.row f b →
        f l'.buckets[b] = f l.buckets[b] := by
      intro f h
      simpa [row, hb, hb'] using h
    -- A bucket is known by the four columns that it has an entry in.
    have htotal := hrow (hview (.bucketTotal b))
    have hblocked := hrow (hview (.bucketOfClass .blocked b))
    have hcached := hrow (hview (.bucketOfClass .cached b))
    have hforwarded := hrow (hview (.bucketOfClass .forwarded b))
    exact Bucket.mk.injEq .. ▸ ⟨htotal, hblocked, hcached, hforwarded⟩
  obtain ⟨⟨statuses, types, replies, lists⟩, window, buckets, length_buckets⟩ := l
  obtain ⟨⟨statuses', types', replies', lists'⟩, window', buckets', length_buckets'⟩ := l'
  dsimp only at hwindow hlists hstatuses htypes hreplies hbuckets
  subst hwindow hlists hstatuses htypes hreplies hbuckets
  rfl

def enter (l : Ledger) (q : Query) : Ledger :=
  let bucket := l.window.bucketOf q.time
  (((l.addTotal bucket 1).addType q.type 1).replaceReply none q.reply).reclassify none q.status
    bucket

def exchange (l : Ledger) (q : Query) : Option Query → Ledger
  | some q' => (Store.unbook l q).enter q'
  | none => Store.unbook l q

theorem window_exchange (l : Ledger) (q : Query) (q? : Option Query) :
    (l.exchange q q?).window = l.window := by
  cases q? <;> rfl

theorem lists_exchange (l : Ledger) (q : Query) (q? : Option Query) :
    (l.exchange q q?).tally.lists = l.tally.lists := by
  cases q? <;> rfl

theorem view_enter_full (l : Ledger) (q : Query) (v : View) :
    (l.enter q).view v = l.view v + Query.stake (v.counts l.window) (some q) := by
  have hb := l.window.bucketOf_lt_length q.time
  simp only [enter, reclassify, replaceReply]
  rw [view_bookStatus, view_addReply, view_addType, view_addTotal, Query.stake, Option.any_some,
    View.counts_eq]
  · abel
  · exact hb
  · exact hb

theorem view_exchange (l : Ledger) (q : Query) (q? : Option Query) (v : View) :
    (l.exchange q q?).view v = l.view v + q.shift (v.counts l.window) q? := by
  unfold Query.shift
  have hunbook : (Store.unbook l q).view v =
      l.view v - Query.stake (v.counts l.window) (some q) := view_unbook l q v
  cases q? with
  | none =>
    rw [exchange, hunbook]
    simp only [Query.stake, Option.any_none, Bool.false_eq_true, if_false]
    abel
  | some q' =>
    have hwindow : (Store.unbook l q).window = l.window := rfl
    rw [exchange, view_enter_full, hunbook, hwindow]
    abel

theorem exchange_exchange (l : Ledger) (q q' : Query) (q? : Option Query) :
    (l.exchange q (some q')).exchange q' q? = l.exchange q q? := by
  refine eq_of_view ?_ ?_ fun v => ?_
  · simp only [window_exchange]
  · simp only [lists_exchange]
  · simp only [view_exchange, window_exchange]
    rw [add_assoc, Query.shift_add_shift]

theorem exchange_comm (l : Ledger) (q p : Query) (q? p? : Option Query) :
    (l.exchange q q?).exchange p p? = (l.exchange p p?).exchange q q? := by
  refine eq_of_view ?_ ?_ fun v => ?_
  · simp only [window_exchange]
  · simp only [lists_exchange]
  · simp only [view_exchange, window_exchange]
    exact add_right_comm _ _ _

theorem exchange_self (l : Ledger) (q : Query) : l.exchange q (some q) = l := by
  refine eq_of_view (window_exchange l q _) (lists_exchange l q _) fun v => ?_
  rw [view_exchange, Query.shift_self, add_zero]

theorem reclassify_eq_exchange (l : Ledger) (q : Query) (new : Status) :
    l.reclassify (some q.status) new (l.window.bucketOf q.time) =
      l.exchange q (some { q with status := new }) := by
  refine eq_of_view ?_ ?_ fun v => ?_
  · rw [window_exchange]
    rfl
  · rw [lists_exchange]
    rfl
  · rw [view_exchange, view_reclassify]
    simp only [Query.shift, Query.stake, Option.any_some]
    abel

theorem replaceReply_eq_exchange (l : Ledger) (q : Query) (new : ReplyKind) :
    l.replaceReply (some q.reply) new = l.exchange q (some { q with reply := new }) := by
  refine eq_of_view ?_ ?_ fun v => ?_
  · rw [window_exchange]
    rfl
  · rw [lists_exchange]
    rfl
  · rw [view_exchange, view_replaceReply]
    simp only [Query.shift, Query.stake, Option.any_some]
    abel

end Ledger

end Sinkhole
