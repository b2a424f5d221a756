import Sinkhole.Proofs.Ledger.Views
import Sinkhole.Proofs.Timeline.Moves
import Sinkhole.Store.Removal

namespace Sinkhole

open scoped Words

namespace View

/-- Whether a view counts a query, in the buckets of a window. -/
def counts (v : View) (w : Window) (q : Query) : Bool :=
  match v with
  | ofStatus s => q.status = s
  | ofType t => q.type = t
  | ofReply r => q.reply = r
  | total => true
  | ofClass c => c.holds q.status
  | bucketTotal b => w.bucketOf q.time = b
  | bucketOfClass c b => w.bucketOf q.time = b && c.holds q.status

theorem counts_eq (v : View) (w : Window) (q : Query) :
    (if v.counts w q then (1 : Int64) else 0) =
      (if v.booksStatus q.status (w.bucketOf q.time) then 1 else 0) +
      (if v.booksTotal (w.bucketOf q.time) then 1 else 0) +
      (if v.booksType q.type then 1 else 0) + (if v.booksReply q.reply then 1 else 0) := by
  cases v <;> simp [counts, booksStatus, booksTotal, booksType, booksReply]
  rfl

end View

namespace Ledger

/-- Each number of the ledger is the number of queries that it counts. -/
def Recounts (l : Ledger) (qs : Multiset Query) : Prop :=
  ∀ v : View, l.view v = census (v.counts l.window) qs

variable {l : Ledger} {qs : Multiset Query} {q : Query}

theorem recounts_cons_iff : l.Recounts (q ::ₘ qs) ↔
    ∀ v : View, l.view v = census (v.counts l.window) qs + if v.counts l.window q then 1 else 0 := by
  simp only [Recounts, census_cons]

theorem recounts_empty (window : Window) : (empty window).Recounts 0 := by
  have hrow : ∀ (f : Bucket → Int64) (b : ℕ), f 0 = 0 → (empty window).row f b = 0 := by
    intro f b hf
    simp only [row, empty, List.map_replicate, hf, List.getD_eq_getElem?_getD,
      List.getElem?_replicate]
    split <;> rfl
  intro v
  cases v with
  | ofStatus s => cases s <;> rfl
  | ofType t => cases t <;> rfl
  | ofReply r => cases r <;> rfl
  | total => rfl
  | ofClass c => cases c <;> rfl
  | bucketTotal b => exact hrow _ b rfl
  | bucketOfClass c b => exact hrow _ b (by cases c <;> rfl)

section
variable (l q) (v : View)

theorem view_enter (hreply : q.reply = .unknown) :
    ((((l.addTotal (l.window.bucketOf q.time) 1).addType q.type 1).replaceReply none
      .unknown).reclassify none q.status (l.window.bucketOf q.time)).view v =
      l.view v + if v.counts l.window q then 1 else 0 := by
  have hb := l.window.bucketOf_lt_length q.time
  simp only [reclassify, replaceReply]
  rw [view_bookStatus, view_addReply, view_addType, view_addTotal, View.counts_eq, hreply]
  · abel
  · exact hb
  · exact hb

theorem view_unbook :
    (Store.unbook l q).view v = l.view v - if v.counts l.window q then 1 else 0 := by
  have hb := l.window.bucketOf_lt_length q.time
  simp only [Store.unbook, dropReply, dropStatus]
  rw [view_addReply, view_addType, view_addTotal, view_bookStatus, View.counts_eq]
  · simp only [ite_neg_one]
    abel
  · exact hb
  · exact hb

theorem view_reclassify (new : Status) :
    (l.reclassify (some q.status) new (l.window.bucketOf q.time)).view v =
      l.view v - (if v.counts l.window q then 1 else 0) +
        if v.counts l.window { q with status := new } then 1 else 0 := by
  have hb := l.window.bucketOf_lt_length q.time
  simp only [reclassify]
  rw [view_bookStatus, view_bookStatus, View.counts_eq, View.counts_eq]
  · simp only [ite_neg_one]
    abel
  · exact hb
  · exact hb

theorem view_replaceReply (new : ReplyKind) :
    (l.replaceReply (some q.reply) new).view v =
      l.view v - (if v.counts l.window q then 1 else 0) +
        if v.counts l.window { q with reply := new } then 1 else 0 := by
  have hadd : l.replaceReply (some q.reply) new =
      (l.dropReply q.reply).replaceReply none new := rfl
  rw [hadd, replaceReply, view_addReply, dropReply, view_addReply, View.counts_eq, View.counts_eq,
    ite_neg_one]
  abel

end

theorem Recounts.enter (h : l.Recounts qs) (hreply : q.reply = .unknown) :
    ((((l.addTotal (l.window.bucketOf q.time) 1).addType q.type 1).replaceReply none
      .unknown).reclassify none q.status (l.window.bucketOf q.time)).Recounts (q ::ₘ qs) := by
  rw [recounts_cons_iff]
  intro v
  rw [view_enter l q v hreply, h v]
  rfl

theorem Recounts.unbook (h : l.Recounts (q ::ₘ qs)) : (Store.unbook l q).Recounts qs := by
  rw [recounts_cons_iff] at h
  intro v
  rw [view_unbook, h v, add_sub_cancel_right]
  rfl

theorem Recounts.reclassify (h : l.Recounts (q ::ₘ qs)) (new : Status) :
    (l.reclassify (some q.status) new (l.window.bucketOf q.time)).Recounts
      ({ q with status := new } ::ₘ qs) := by
  rw [recounts_cons_iff] at h ⊢
  intro v
  rw [view_reclassify, h v, add_sub_cancel_right]
  rfl

theorem Recounts.replaceReply (h : l.Recounts (q ::ₘ qs)) (new : ReplyKind) :
    (l.replaceReply (some q.reply) new).Recounts ({ q with reply := new } ::ₘ qs) := by
  rw [recounts_cons_iff] at h ⊢
  intro v
  rw [view_replaceReply, h v, add_sub_cancel_right]
  rfl

theorem Recounts.congr {q' : Query} (h : l.Recounts (q ::ₘ qs)) (hstatus : q'.status = q.status)
    (htime : q'.time = q.time) (htype : q'.type = q.type) (hreply : q'.reply = q.reply) :
    l.Recounts (q' ::ₘ qs) := by
  rw [recounts_cons_iff] at h ⊢
  intro v
  rw [h v, View.counts_eq, View.counts_eq, hstatus, htime, htype, hreply]

@[simp] theorem window_slideTo (l : Ledger) (now : UInt64) :
    (l.slideTo now).window = l.window.slideTo now := by
  unfold slideTo
  dsimp only
  split
  · rename_i hshift
    rw [Window.slideTo_of_shiftTo_eq_zero _ hshift]
  · rfl

theorem tally_slideTo (l : Ledger) (now : UInt64) : (l.slideTo now).tally = l.tally := by
  unfold slideTo
  dsimp only
  split <;> rfl

/-- Moving the window keeps a ledger right, if no query lies past the window's end. -/
theorem Recounts.slideTo (h : l.Recounts qs) (now : UInt64)
    (hwithin : ∀ q ∈ qs, l.window.intervalOf q.time ≤ l.window.lastInterval) :
    (l.slideTo now).Recounts qs := by
  have hrow : ∀ {f : Bucket → Int64} {p : Query → Bool}, f 0 = 0 →
      (∀ x y, f (x + y) = f x + f y) →
      (∀ b, l.row f b = census (fun q => l.window.bucketOf q.time = b && p q) qs) →
      ∀ b, (l.slideTo now).row f b =
        census (fun q => (l.window.slideTo now).bucketOf q.time = b && p q) qs := by
    intro f p hzero hadd hrow b
    rw [row, map_buckets_slideTo l now hzero hadd]
    refine Row.getD_fold_of_census hrow (fun q _ => ?_) (fun q hq => ?_) b
    · rw [List.length_map, l.length_buckets]
      exact l.window.bucketOf_lt_length q.time
    · exact l.window.bucketOf_slideTo now q.time (hwithin q hq)
  intro v
  -- The tally does not depend on the window, so only the rows of buckets are moved.
  cases v with
  | ofStatus s => rw [view, tally_slideTo]; exact h (.ofStatus s)
  | ofType t => rw [view, tally_slideTo]; exact h (.ofType t)
  | ofReply r => rw [view, tally_slideTo]; exact h (.ofReply r)
  | total => rw [view, tally_slideTo]; exact h .total
  | ofClass c => rw [view, tally_slideTo]; exact h (.ofClass c)
  | bucketTotal b =>
    have hrows : ∀ b, l.row Bucket.total b =
        census (fun q => l.window.bucketOf q.time = b && true) qs := by
      intro b
      simp only [Bool.and_true]
      exact h (.bucketTotal b)
    have hb := hrow (f := Bucket.total) (p := fun _ => true) rfl (fun _ _ => rfl) hrows b
    simp only [Bool.and_true] at hb
    rw [window_slideTo]
    exact hb
  | bucketOfClass c b =>
    rw [window_slideTo]
    exact hrow (f := c.ofBucket) (p := fun q => c.holds q.status) (by cases c <;> rfl)
      (by intro x y; cases c <;> rfl) (fun b => h (.bucketOfClass c b)) b

end Ledger

end Sinkhole
