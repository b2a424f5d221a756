import Mathlib.Algebra.Order.BigOperators.Group.Finset
import Sinkhole.Proofs.Ledger.Moves

namespace Sinkhole

open Finset
open scoped Words

def View.ofTally : View → Bool
  | bucketTotal _ | bucketOfClass _ _ => false
  | ofStatus _ | ofType _ | ofReply _ | total | ofClass _ => true

/-- A column of the buckets: what they count in all, or of one class. -/
inductive Column where
  | total
  | ofClass (c : StatusClass)

namespace Column

def ofBucket : Column → Bucket → Int64
  | total => Bucket.total
  | ofClass c => c.ofBucket

def view : Column → ℕ → View
  | total => .bucketTotal
  | ofClass c => .bucketOfClass c

theorem ofBucket_zero_add (k : Column) :
    k.ofBucket 0 = 0 ∧ ∀ x y, k.ofBucket (x + y) = k.ofBucket x + k.ofBucket y := by
  apply Bucket.column_zero_add
  cases k with
  | total => simp [ofBucket, Bucket.columns]
  | ofClass c => cases c <;> simp [ofBucket, StatusClass.ofBucket, Bucket.columns]

end Column

/-- What a ledger can be told. A move of the window names the instant that its last bucket is to
hold. -/
inductive Booking where
  | reclassify (old : Option Status) (new : Status) (bucket : ℕ)
  | dropStatus (s : Status) (bucket : ℕ)
  | addTotal (bucket : ℕ) (n : Int64)
  | addType (t : RecordType) (n : Int64)
  | replaceReply (old : Option ReplyKind) (new : ReplyKind)
  | dropReply (r : ReplyKind)
  | setLists (counts : ListCounts)
  | slideTo (now : UInt64)

namespace Booking

def apply (l : Ledger) : Booking → Ledger
  | reclassify old new bucket => l.reclassify old new bucket
  | dropStatus s bucket => l.dropStatus s bucket
  | addTotal bucket n => l.addTotal bucket n
  | addType t n => l.addType t n
  | replaceReply old new => l.replaceReply old new
  | dropReply r => l.dropReply r
  | setLists counts => l.setLists counts
  | slideTo now => l.slideTo now

def runAll (bookings : List Booking) (l : Ledger) : Ledger :=
  bookings.foldl apply l

def bucket? : Booking → Option ℕ
  | reclassify _ _ bucket | dropStatus _ bucket | addTotal bucket _ => some bucket
  | _ => none

def fits (b : Booking) (length : ℕ) : Bool :=
  b.bucket?.all (· < length)

def isMove : Booking → Bool
  | slideTo _ => true
  | _ => false

def isArrival : Booking → Bool
  | reclassify none _ _ => true
  | _ => false

def isRemoval : Booking → Bool
  | dropStatus _ _ => true
  | _ => false

/-- What a booking adds to the total of its bucket. -/
def total? : Booking → Option Int64
  | addTotal _ n => some n
  | _ => none

def lists? : Booking → Option ListCounts
  | setLists counts => some counts
  | _ => none

/-- What a booking other than a move adds to the number that a view shows. -/
def adds (v : View) : Booking → Int64
  | reclassify none new bucket => if v.booksStatus new bucket then 1 else 0
  | reclassify (some old) new bucket =>
    (if v.booksStatus old bucket then -1 else 0) + if v.booksStatus new bucket then 1 else 0
  | dropStatus s bucket => if v.booksStatus s bucket then -1 else 0
  | addTotal bucket n => if v.booksTotal bucket then n else 0
  | addType t n => if v.booksType t then n else 0
  | replaceReply none new => if v.booksReply new then 1 else 0
  | replaceReply (some old) new =>
    (if v.booksReply old then -1 else 0) + if v.booksReply new then 1 else 0
  | dropReply r => if v.booksReply r then -1 else 0
  | setLists _ | slideTo _ => 0

/-- What a booking adds to a column, in the bucket that it names. -/
def amount (k : Column) (b : Booking) : Int64 :=
  match k with
  | .total => b.total?.getD 0
  | .ofClass c => b.adds (.ofClass c)

variable {l : Ledger} {b : Booking} {bookings : List Booking}

theorem adds_column (k : Column) (b : Booking) (i : ℕ) :
    b.adds (k.view i) = if b.bucket? = some i then b.amount k else 0 := by
  cases k with
  | total =>
    cases b with
    | addTotal bucket n => simp [adds, amount, bucket?, total?, Column.view, View.booksTotal]
    | reclassify old new bucket => cases old <;> exact (ite_self _).symm
    | dropStatus s bucket => exact (ite_self _).symm
    | replaceReply old new => cases old <;> rfl
    | addType | dropReply | setLists | slideTo => rfl
  | ofClass c =>
    -- In its own bucket a class sees the statuses that it sees in the tally.
    have hstatus : ∀ s bucket, (View.bucketOfClass c i).booksStatus s bucket =
        (decide (bucket = i) && (View.ofClass c).booksStatus s bucket) := fun _ _ => rfl
    cases b with
    | addTotal bucket n => exact (ite_self _).symm
    | reclassify old new bucket =>
      by_cases hi : bucket = i <;> cases old <;>
        simp [adds, amount, bucket?, Column.view, hstatus, hi]
    | dropStatus s bucket =>
      by_cases hi : bucket = i <;> simp [adds, amount, bucket?, Column.view, hstatus, hi]
    | replaceReply old new => cases old <;> rfl
    | addType | dropReply | setLists | slideTo => rfl

theorem amount_eq_zero (hbucket : b.bucket? = none) (k : Column) : b.amount k = 0 := by
  cases b with
  | reclassify | dropStatus | addTotal => cases hbucket
  | replaceReply old new => cases k <;> cases old <;> rfl
  | addType | dropReply | setLists | slideTo => cases k <;> rfl

theorem sum_amount_of_fits {length : ℕ} (hfits : b.fits length) (k : Column) {N : Type}
    [AddCommMonoid N] (f : Int64 → N) (hzero : f 0 = 0) :
    ∑ i ∈ range length, f (if b.bucket? = some i then b.amount k else 0) = f (b.amount k) := by
  cases hbucket : b.bucket? with
  | none =>
    have hamount : b.amount k = 0 := amount_eq_zero hbucket k
    simp [hamount, hzero]
  | some j =>
    have hj : j < length := by simpa [fits, hbucket] using hfits
    rw [sum_eq_single_of_mem j (mem_range.2 hj)]
    · rw [if_pos rfl]
    · intro i _ hij
      rw [if_neg (fun h => hij (Option.some.inj h).symm), hzero]

theorem length_apply (l : Ledger) (b : Booking) :
    (b.apply l).window.length = l.window.length := by
  cases b with
  | reclassify old new bucket => cases old <;> rfl
  | slideTo now => rw [apply, Ledger.window_slideTo, Window.length_slideTo]
  | _ => rfl

/-- A booking changes each number by what it adds to it. A move adds nothing, and changes no number
of the tally. -/
theorem view_apply (hfits : b.fits l.window.length) {v : View} (hv : b.isMove → v.ofTally) :
    (b.apply l).view v = l.view v + b.adds v := by
  have hb : ∀ bucket, b.bucket? = some bucket → bucket < l.window.length := by
    intro bucket hbucket
    simpa [fits, hbucket] using hfits
  cases b with
  | reclassify old new bucket =>
    have hnew := l.view_bookStatus new (hb bucket rfl) 1 v
    cases old with
    | none => exact hnew
    | some old =>
      have hold := l.view_bookStatus old (hb bucket rfl) (-1) v
      have hboth := (l.bookStatus old bucket (-1)).view_bookStatus new (hb bucket rfl) 1 v
      rw [hold, add_assoc] at hboth
      exact hboth
  | dropStatus s bucket => exact l.view_bookStatus s (hb bucket rfl) (-1) v
  | addTotal bucket n => exact l.view_addTotal (hb bucket rfl) n v
  | addType t n => exact l.view_addType t n v
  | replaceReply old new =>
    have hnew := l.view_addReply new 1 v
    cases old with
    | none => exact hnew
    | some old =>
      have hold := l.view_addReply old (-1) v
      have hboth := (l.dropReply old).view_addReply new 1 v
      rw [Ledger.dropReply, hold, add_assoc] at hboth
      exact hboth
  | dropReply r => exact l.view_addReply r (-1) v
  | setLists counts => exact (l.view_setLists counts v).trans (add_zero _).symm
  | slideTo now =>
    -- A move changes the buckets only.
    have htally := Ledger.tally_slideTo l now
    rw [adds, add_zero, apply]
    cases v with
    | bucketTotal | bucketOfClass => cases hv rfl
    | ofStatus | ofType | ofReply | total | ofClass => rw [Ledger.view, htally]; rfl

theorem lists_apply (l : Ledger) (b : Booking) :
    (b.apply l).tally.lists = b.lists?.getD l.tally.lists := by
  cases b with
  | reclassify old new bucket => cases old <;> rfl
  | replaceReply old new => cases old <;> rfl
  | slideTo now => exact congrArg Tally.lists (Ledger.tally_slideTo l now)
  | _ => rfl

theorem adds_total (b : Booking) :
    b.adds .total = Int64.ofInt ((if b.isArrival then 1 else 0) - if b.isRemoval then 1 else 0) := by
  cases b with
  | reclassify old new bucket =>
    cases old with
    | none => rfl
    -- The old status is taken back where the new one is counted.
    | some old => exact (by decide : (-1 : Int64) + 1 = Int64.ofInt (0 - 0))
  | replaceReply old new => cases old <;> rfl
  | _ => rfl

theorem wordSize_amount_le (c : StatusClass) (b : Booking) :
    wordSize (b.amount (.ofClass c)) ≤ 1 := by
  have hone : ∀ p : Bool, wordSize (if p then 1 else 0) ≤ 1 := by decide
  have hneg : ∀ p : Bool, wordSize (if p then -1 else 0) ≤ 1 := by decide
  have hboth : ∀ p q : Bool,
      wordSize ((if p then (-1 : Int64) else 0) + if q then 1 else 0) ≤ 1 := by decide
  cases b with
  | reclassify old new bucket =>
    cases old with
    | none => exact hone _
    | some old => exact hboth _ _
  | dropStatus s bucket => exact hneg _
  | replaceReply old new => cases old <;> exact Nat.zero_le 1
  | addTotal | addType | dropReply | setLists | slideTo => exact Nat.zero_le 1

theorem sum_amount_total (bookings : List Booking) {N : Type} [AddCommMonoid N] (f : Int64 → N)
    (hzero : f 0 = 0) :
    (bookings.map fun b => f (b.amount .total)).sum = ((bookings.filterMap total?).map f).sum := by
  induction bookings with
  | nil => rfl
  | cons b bookings ih =>
    rw [List.map_cons, List.sum_cons, ih, amount]
    cases htotal : b.total? with
    | none => rw [List.filterMap_cons_none htotal, Option.getD_none, hzero, zero_add]
    | some n =>
      rw [List.filterMap_cons_some htotal, List.map_cons, List.sum_cons, Option.getD_some]

theorem sum_adds_total (bookings : List Booking) :
    (bookings.map (adds .total)).sum =
      Int64.ofInt (bookings.countP isArrival - bookings.countP isRemoval) := by
  induction bookings with
  | nil => rfl
  | cons b bookings ih =>
    rw [List.map_cons, List.sum_cons, ih, adds_total, ← Int64.ofInt_add, List.countP_cons,
      List.countP_cons]
    congr 1
    push_cast
    abel

theorem lists_runAll (bookings : List Booking) (l : Ledger) :
    (runAll bookings l).tally.lists =
      (bookings.filterMap lists?).getLast?.getD l.tally.lists := by
  induction bookings generalizing l with
  | nil => rfl
  | cons b bookings ih =>
    have hrest := ih (b.apply l)
    rw [lists_apply] at hrest
    refine hrest.trans ?_
    cases hlists : b.lists? with
    | none => rw [List.filterMap_cons_none hlists, Option.getD_none]
    | some counts =>
      rw [List.filterMap_cons_some hlists, List.getLast?_cons, Option.getD_some, Option.getD_some]

theorem view_runAll {v : View} (hv : v.ofTally) (hfits : ∀ b ∈ bookings, b.fits l.window.length) :
    (runAll bookings l).view v = l.view v + (bookings.map (adds v)).sum := by
  induction bookings generalizing l with
  | nil => exact (add_zero _).symm
  | cons b bookings ih =>
    obtain ⟨hb, hrest⟩ := List.forall_mem_cons.1 hfits
    rw [← length_apply l b] at hrest
    have hrun := ih hrest
    rw [view_apply hb (fun _ => hv), add_assoc] at hrun
    rw [List.map_cons, List.sum_cons]
    exact hrun

end Booking

namespace Ledger

open Booking

variable {l : Ledger} {b : Booking} {bookings : List Booking}

theorem sum_column (l : Ledger) (k : Column) {N : Type} [AddCommMonoid N] (f : Int64 → N) :
    ((l.buckets.map k.ofBucket).map f).sum =
      ∑ i ∈ range l.window.length, f (l.view (k.view i)) := by
  rw [Row.sum_map, List.length_map, l.length_buckets]
  apply sum_congr rfl
  intro i _
  cases k <;> rfl

/-- A booking adds its amount to the sum of each column, and brings the entries no farther from zero
than that, taken together. -/
theorem column_apply (hfits : b.fits l.window.length) (k : Column) :
    ((b.apply l).buckets.map k.ofBucket).sum = (l.buckets.map k.ofBucket).sum + b.amount k ∧
      (((b.apply l).buckets.map k.ofBucket).map wordSize).sum ≤
        ((l.buckets.map k.ofBucket).map wordSize).sum + wordSize (b.amount k) := by
  -- A move has no amount in any one bucket, so it is treated as a fold of the whole column.
  by_cases hmove : b.isMove
  · cases b with
    | slideTo now =>
      obtain ⟨hzero, hadd⟩ := k.ofBucket_zero_add
      have hamount : (Booking.slideTo now).amount k = 0 := by cases k <;> rfl
      rw [hamount, add_zero, apply, map_buckets_slideTo l now hzero hadd, Row.sum_fold]
      exact ⟨rfl, Row.size_fold_le _ _⟩
    | _ => cases hmove
  · have hview : ∀ i, (b.apply l).view (k.view i) =
        l.view (k.view i) + if b.bucket? = some i then b.amount k else 0 := by
      intro i
      rw [view_apply hfits (absurd · hmove), adds_column]
    constructor
    · have hsum := (b.apply l).sum_column k id
      rw [List.map_id, length_apply] at hsum
      have hold := l.sum_column k id
      rw [List.map_id] at hold
      rw [hsum, hold]
      simp only [id, hview, sum_add_distrib]
      exact congrArg (_ + ·) (sum_amount_of_fits hfits k id rfl)
    · rw [sum_column, sum_column, length_apply]
      simp only [hview]
      rw [← sum_amount_of_fits hfits k wordSize rfl, ← sum_add_distrib]
      exact sum_le_sum fun i _ => wordSize_add_le _ _

theorem column_runAll (hfits : ∀ b ∈ bookings, b.fits l.window.length) (k : Column) :
    ((runAll bookings l).buckets.map k.ofBucket).sum =
        (l.buckets.map k.ofBucket).sum + (bookings.map (amount k)).sum ∧
      (((runAll bookings l).buckets.map k.ofBucket).map wordSize).sum ≤
        ((l.buckets.map k.ofBucket).map wordSize).sum +
          (bookings.map fun b => wordSize (b.amount k)).sum := by
  induction bookings generalizing l with
  | nil => exact ⟨(add_zero _).symm, Nat.le_refl _⟩
  | cons b bookings ih =>
    obtain ⟨hb, hrest⟩ := List.forall_mem_cons.1 hfits
    rw [← length_apply l b] at hrest
    obtain ⟨hsum, hsize⟩ := ih hrest
    obtain ⟨hstep, hstepSize⟩ := column_apply hb k
    rw [hstep, add_assoc] at hsum
    rw [List.map_cons, List.sum_cons, List.map_cons, List.sum_cons]
    refine ⟨hsum, hsize.trans ?_⟩
    omega

theorem column_empty (window : Window) (k : Column) {N : Type} [AddCommMonoid N] (f : Int64 → N)
    (hzero : f 0 = 0) : (((empty window).buckets.map k.ofBucket).map f).sum = 0 := by
  rw [empty, List.map_replicate, k.ofBucket_zero_add.1, List.map_replicate, hzero]
  simp

/-- Whatever a ledger is told of buckets that it has, its buckets hold in each class what the tally
counts, and in all what was added to them. -/
theorem tally_agrees_with_buckets (window : Window) (bookings : List Booking)
    (hfits : ∀ b ∈ bookings, b.fits window.length) :
    let l := runAll bookings (empty window)
    (∀ c : StatusClass, (l.buckets.map c.ofBucket).sum = l.tally.countWhere c.holds ∧
      (bookings.length < 2 ^ 63 → ((l.buckets.map c.ofBucket).map (·.toInt)).sum =
        (l.tally.countWhere c.holds).toInt)) ∧
    (l.buckets.map Bucket.total).sum = (bookings.filterMap total?).sum ∧
    (((bookings.filterMap total?).map wordSize).sum < 2 ^ 63 →
      ((l.buckets.map Bucket.total).map (·.toInt)).sum =
        ((bookings.filterMap total?).map (·.toInt)).sum) ∧
    l.tally.total = Int64.ofInt (bookings.countP isArrival - bookings.countP isRemoval) ∧
    (bookings.length < 2 ^ 63 →
      l.tally.total.toInt = bookings.countP isArrival - bookings.countP isRemoval) ∧
    l.tally.lists = (bookings.filterMap lists?).getLast?.getD {} ∧
    ∀ now, ((Booking.slideTo now).apply l).tally = l.tally := by
  intro l
  -- Nothing was in a column before, so it holds what the bookings brought.
  have hcolumn : ∀ k : Column, (l.buckets.map k.ofBucket).sum = (bookings.map (amount k)).sum ∧
      ((l.buckets.map k.ofBucket).map wordSize).sum ≤
        (bookings.map fun b => wordSize (b.amount k)).sum := by
    intro k
    obtain ⟨hsum, hsize⟩ := column_runAll (l := empty window) hfits k
    have hempty := column_empty window k id rfl
    rw [List.map_id] at hempty
    rw [hempty, zero_add] at hsum
    rw [column_empty window k wordSize rfl, Nat.zero_add] at hsize
    exact ⟨hsum, hsize⟩
  have hview : ∀ v : View, v.ofTally → l.view v = (bookings.map (adds v)).sum := by
    intro v hv
    have hrun := view_runAll (l := empty window) hv hfits
    rwa [recounts_empty window v, show census _ 0 = (0 : Int64) from rfl, zero_add] at hrun
  have hbooked : (l.buckets.map Bucket.total).sum = (bookings.filterMap total?).sum := by
    have hsum := sum_amount_total bookings id rfl
    rw [List.map_id] at hsum
    exact (hcolumn .total).1.trans hsum
  have htotal : l.tally.total =
      Int64.ofInt (bookings.countP isArrival - bookings.countP isRemoval) :=
    (hview .total rfl).trans (sum_adds_total bookings)
  refine ⟨fun c => ?_, hbooked, fun hsmall => ?_, htotal, fun hlength => ?_,
    lists_runAll bookings (empty window), fun now => tally_slideTo l now⟩
  · obtain ⟨hsum, hsize⟩ := hcolumn (.ofClass c)
    have hagree : (l.buckets.map c.ofBucket).sum = l.tally.countWhere c.holds :=
      hsum.trans (hview (.ofClass c) rfl).symm
    refine ⟨hagree, fun hlength => ?_⟩
    -- No booking moves a class by more than one query.
    have hle : (bookings.map fun b => wordSize (b.amount (.ofClass c))).sum ≤ bookings.length := by
      have hones := List.sum_le_card_nsmul (bookings.map fun b => wordSize (b.amount (.ofClass c)))
        1 (by simpa using fun b _ => wordSize_amount_le c b)
      simpa using hones
    have hsmall := (hsize.trans hle).trans_lt hlength
    rw [← hagree]
    exact (toInt_sum_of_small hsmall).symm
  · have hsize := (hcolumn .total).2
    rw [sum_amount_total bookings wordSize rfl] at hsize
    have hexact : (l.buckets.map Bucket.total).sum.toInt =
        ((l.buckets.map Bucket.total).map (·.toInt)).sum :=
      toInt_sum_of_small (hsize.trans_lt hsmall)
    rw [← hexact, ← toInt_sum_of_small hsmall, hbooked]
  · have harrivals : bookings.countP isArrival ≤ bookings.length := List.countP_le_length
    have hremovals : bookings.countP isRemoval ≤ bookings.length := List.countP_le_length
    rw [htotal]
    apply Int64.toInt_ofInt_of_le <;> omega

/-- A status is taken back that nobody held and a query is dropped from another bucket than it
entered, with a move of the window between them. -/
theorem tally_agrees_with_buckets_of_ill_matched :
    let window : Window := .ending 10 3 12000
    let bookings : List Booking :=
      [.reclassify none .gravity 0, .reclassify (some .forwarded) .cache 2, .addTotal 0 5,
        .slideTo 47000, .dropStatus .gravity 2, .addTotal 1 (-2), .setLists { gravity := 9 }]
    let l := runAll bookings (empty window)
    (∀ b ∈ bookings, b.fits window.length) ∧ l.buckets.map Bucket.blocked = [1, 0, -1] ∧
      l.tally.blocked = 0 ∧ (l.buckets.map Bucket.forwarded).sum = -1 ∧
      (l.buckets.map Bucket.total).sum = 3 ∧ l.tally.total = 0 ∧ l.tally.lists.gravity = 9 := by
  intro window bookings l
  have hfits : ∀ b ∈ bookings, b.fits window.length := by decide +kernel
  obtain ⟨hclasses, hbooked, -, htotal, -, hlists, -⟩ :=
    tally_agrees_with_buckets window bookings hfits
  have hblocked : l.buckets.map Bucket.blocked = [1, 0, -1] := by decide +kernel
  have hforwarded : l.tally.forwarded = -1 := by decide +kernel
  have hblockedSum : (l.buckets.map Bucket.blocked).sum = l.tally.blocked := (hclasses .blocked).1
  rw [hblocked] at hblockedSum
  have hforwardedSum : (l.buckets.map Bucket.forwarded).sum = l.tally.forwarded :=
    (hclasses .forwarded).1
  refine ⟨hfits, hblocked, hblockedSum.symm.trans (by decide), hforwardedSum.trans hforwarded,
    hbooked.trans (by decide), htotal.trans (by decide), ?_⟩
  rw [hlists]
  rfl

end Ledger

end Sinkhole
