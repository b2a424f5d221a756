import Mathlib.Algebra.BigOperators.Group.List.Basic
import Sinkhole.Ledger.Basic
import Sinkhole.Proofs.Number.Census
import Sinkhole.Proofs.Timeline.Rows

namespace Sinkhole

open scoped Words

inductive StatusClass where
  | blocked
  | cached
  | forwarded
  deriving DecidableEq, Repr

namespace StatusClass

def holds : StatusClass → Status → Bool
  | blocked => Status.isBlocked
  | cached => Status.isCached
  | forwarded => Status.isForwarded

def ofBucket : StatusClass → Bucket → Int64
  | blocked => Bucket.blocked
  | cached => Bucket.cached
  | forwarded => Bucket.forwarded

end StatusClass

/-- What a ledger has numbers for. -/
inductive View where
  | ofStatus (s : Status)
  | ofType (t : RecordType)
  | ofReply (r : ReplyKind)
  | total
  | ofClass (c : StatusClass)
  | bucketTotal (bucket : ℕ)
  | bucketOfClass (c : StatusClass) (bucket : ℕ)

namespace Ledger

/-- What the buckets hold of one kind of count. A bucket that does not exist holds nothing. -/
def row (l : Ledger) (f : Bucket → Int64) (bucket : ℕ) : Int64 :=
  (l.buckets.map f).getD bucket 0

def view (l : Ledger) : View → Int64
  | .ofStatus s => l.tally.ofStatus s
  | .ofType t => l.tally.ofType t
  | .ofReply r => l.tally.ofReply r
  | .total => l.tally.total
  | .ofClass c => l.tally.countWhere c.holds
  | .bucketTotal b => l.row Bucket.total b
  | .bucketOfClass c b => l.row c.ofBucket b

end Ledger

namespace View

/-- Whether a view counts the queries that hold a status in a bucket. -/
def booksStatus (v : View) (s : Status) (bucket : ℕ) : Bool :=
  match v with
  | ofStatus u => s = u
  | total => true
  | ofClass c => c.holds s
  | bucketOfClass c b => bucket = b && c.holds s
  | ofType _ | ofReply _ | bucketTotal _ => false

def booksTotal (v : View) (bucket : ℕ) : Bool :=
  match v with
  | bucketTotal b => bucket = b
  | _ => false

def booksType (v : View) (t : RecordType) : Bool :=
  match v with
  | ofType u => t = u
  | _ => false

def booksReply (v : View) (r : ReplyKind) : Bool :=
  match v with
  | ofReply u => r = u
  | _ => false

end View

namespace Tally

theorem total_addStatus (t : Tally) (s : Status) (n : Int64) :
    (t.addStatus s n).total = t.total + n := by
  have hlt : s.code.val < t.statuses.toList.length := by simp
  have hold : t.statuses.toList[s.code.val] = t.ofStatus s := by simp [ofStatus]
  rw [total, addStatus, Vector.toList_set, List.sum_set', dif_pos hlt, hold, total]
  abel

theorem countWhere_addStatus (t : Tally) (inClass : Status → Bool) (s : Status) (n : Int64) :
    (t.addStatus s n).countWhere inClass =
      t.countWhere inClass + if inClass s then n else 0 := by
  -- The statuses of a class are a list without repetition, so the changed one is summed once.
  have hlist : ∀ l : List Status, l.Nodup → (l.map (t.addStatus s n).ofStatus).sum =
      (l.map t.ofStatus).sum + if s ∈ l then n else 0 := by
    intro l hl
    induction l with
    | nil => rfl
    | cons u l ih =>
      obtain ⟨hu, hl⟩ := List.nodup_cons.1 hl
      rw [List.map_cons, List.sum_cons, ih hl, ofStatus_addStatus, List.map_cons, List.sum_cons]
      by_cases hs : s = u
      · subst hs
        rw [if_pos rfl, if_neg hu, if_pos (List.mem_cons_self)]
        abel
      · rw [if_neg hs]
        simp only [List.mem_cons, hs, false_or]
        abel
  have hall : Status.all.Nodup := by decide
  rw [countWhere, hlist _ (hall.filter _), countWhere]
  simp only [List.mem_filter, Status.mem_all, true_and]

end Tally

namespace Ledger

theorem row_modifyBucket (l : Ledger) {bucket : ℕ} (hb : bucket < l.window.length)
    {f : Bucket → Int64} {g : Bucket → Bucket} {n : Int64} (hg : ∀ x, f (g x) = f x + n) (b : ℕ) :
    (l.modifyBucket bucket g).row f b = l.row f b + if bucket = b then n else 0 := by
  rw [← l.length_buckets] at hb
  simp only [row, modifyBucket, List.getD_eq_getElem?_getD, List.getElem?_map,
    List.getElem?_modify]
  by_cases hbb : bucket = b
  · subst hbb
    simp [hb, hg]
  · simp [hbb]

theorem map_buckets_slideTo (l : Ledger) (now : UInt64) {f : Bucket → Int64} (hzero : f 0 = 0)
    (hadd : ∀ x y, f (x + y) = f x + f y) :
    (l.slideTo now).buckets.map f = Row.fold (l.window.shiftTo now) (l.buckets.map f) := by
  unfold slideTo
  dsimp only
  split
  · rename_i hshift
    rw [hshift]
    exact (Row.fold_zero _).symm
  · exact Row.map_fold hzero hadd _ l.buckets

theorem view_bookStatus (l : Ledger) (s : Status) {bucket : ℕ} (hb : bucket < l.window.length)
    (n : Int64) (v : View) :
    (l.bookStatus s bucket n).view v = l.view v + if v.booksStatus s bucket then n else 0 := by
  cases v with
  | ofStatus u =>
    simp only [view, bookStatus, View.booksStatus, Tally.ofStatus_addStatus, decide_eq_true_eq]
    split <;> simp
  | total => exact Tally.total_addStatus l.tally s n
  | ofClass c => exact Tally.countWhere_addStatus l.tally c.holds s n
  | ofType t => exact (add_zero _).symm
  | ofReply r => exact (add_zero _).symm
  | bucketTotal b =>
    -- A status leaves the total of its bucket alone.
    have hrow := l.row_modifyBucket hb (f := Bucket.total) (g := (·.addStatus s n)) (n := 0)
      (fun x => (add_zero _).symm) b
    rw [ite_self] at hrow
    exact hrow
  | bucketOfClass c b =>
    have hclass : ∀ x : Bucket, c.ofBucket (x.addStatus s n) =
        c.ofBucket x + if c.holds s then n else 0 := by
      intro x
      cases c <;> simp only [StatusClass.ofBucket, StatusClass.holds, Bucket.addStatus] <;>
        split <;> simp [*]
    refine (l.row_modifyBucket hb hclass b).trans ?_
    by_cases hbb : bucket = b <;> simp [hbb, view, View.booksStatus]

theorem view_addTotal (l : Ledger) {bucket : ℕ} (hb : bucket < l.window.length) (n : Int64)
    (v : View) :
    (l.addTotal bucket n).view v = l.view v + if v.booksTotal bucket then n else 0 := by
  cases v with
  | bucketTotal b =>
    simp only [View.booksTotal, decide_eq_true_eq]
    exact l.row_modifyBucket hb (fun x => rfl) b
  | bucketOfClass c b =>
    have hclass : ∀ x : Bucket, c.ofBucket (x.addTotal n) = c.ofBucket x + 0 := by
      intro x
      cases c <;> exact (add_zero _).symm
    have hrow := l.row_modifyBucket hb hclass b
    rw [ite_self] at hrow
    exact hrow
  | ofStatus | ofType | ofReply | total | ofClass => exact (add_zero _).symm

theorem view_addType (l : Ledger) (t : RecordType) (n : Int64) (v : View) :
    (l.addType t n).view v = l.view v + if v.booksType t then n else 0 := by
  cases v with
  | ofType u =>
    simp only [view, addType, View.booksType, Tally.ofType_addType, decide_eq_true_eq]
    split <;> simp
  | ofStatus | ofReply | total | ofClass | bucketTotal | bucketOfClass => exact (add_zero _).symm

theorem view_addReply (l : Ledger) (r : ReplyKind) (n : Int64) (v : View) :
    ({ l with tally := l.tally.addReply r n } : Ledger).view v =
      l.view v + if v.booksReply r then n else 0 := by
  cases v with
  | ofReply u =>
    simp only [view, View.booksReply, Tally.ofReply_addReply, decide_eq_true_eq]
    split <;> simp
  | ofStatus | ofType | total | ofClass | bucketTotal | bucketOfClass => exact (add_zero _).symm

theorem view_setLists (l : Ledger) (counts : ListCounts) (v : View) :
    (l.setLists counts).view v = l.view v := by
  cases v <;> rfl

end Ledger

end Sinkhole
