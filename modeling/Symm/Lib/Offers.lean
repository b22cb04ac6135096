import Mathlib.Algebra.Order.Field.Basic
import Mathlib.Algebra.BigOperators.Group.List.Basic
import Mathlib.Tactic.Linarith
import Mathlib.Tactic.Ring

/-!
# Lifting offers

A side of a market is a list of offers `(price, quantity)`, taken in order.
`lift offers need` is what it costs to take `need` units, best offer first. A
taking says how much is taken of each offer. Where the prices ascend, no taking
of the same quantity costs less, and where they descend none brings in more; the
one step of that argument is `lift_cons_le`.

- `depth`, `lift`: what the offers hold, and what taking in order comes to;
- `Takes`, `costOf`: any other way to take the same quantity;
- `isLeast_lift`, `isGreatest_lift`: in order is the cheapest way up ascending prices,
  and brings in the most down descending ones;
- `mirror`: the second is the first at the negated prices.

The exchange argument is by induction on the offers. A taking that leaves a part of the
best offer has to take that part elsewhere, at no lower price, and so `lift_cons_le`
lets the induction go on from the whole of it.
-/

namespace Symm.Lib

universe u

variable {K : Type u} [Field K] [LinearOrder K]

/-- All that the offers hold. -/
def depth (offers : List (K × K)) : K := (offers.map Prod.snd).sum

/-- The cost of taking `need` units in order; what the offers do not hold is not
taken. -/
def lift : List (K × K) → K → K
  | [], _ => 0
  | (price, quantity) :: rest, need =>
    price * min quantity need + lift rest (need - min quantity need)

/-- Prices and quantities are positive. -/
def Positive (offers : List (K × K)) : Prop := ∀ offer ∈ offers, 0 < offer.1 ∧ 0 < offer.2

/-- Quantities are positive, whatever the prices. -/
def Stocked (offers : List (K × K)) : Prop := ∀ offer ∈ offers, 0 < offer.2

/-- Prices do not fall along the offers. -/
def Ascending (offers : List (K × K)) : Prop := offers.Pairwise fun a b => a.1 ≤ b.1

/-- Prices do not rise along the offers. -/
def Descending (offers : List (K × K)) : Prop := offers.Pairwise fun a b => b.1 ≤ a.1

theorem Positive.tail {offer : K × K} {rest : List (K × K)} (h : Positive (offer :: rest)) :
    Positive rest := fun o ho => h o (List.mem_cons_of_mem offer ho)

theorem Positive.stocked {offers : List (K × K)} (h : Positive offers) : Stocked offers :=
  fun o ho => (h o ho).2

theorem Stocked.tail {offer : K × K} {rest : List (K × K)} (h : Stocked (offer :: rest)) :
    Stocked rest := fun o ho => h o (List.mem_cons_of_mem offer ho)

theorem lift_cons (price quantity need : K) (rest : List (K × K)) :
    lift ((price, quantity) :: rest) need =
      price * min quantity need + lift rest (need - min quantity need) := rfl

omit [LinearOrder K] in
@[simp] theorem depth_nil : depth ([] : List (K × K)) = 0 := rfl

omit [LinearOrder K] in
@[simp] theorem depth_cons (offer : K × K) (rest : List (K × K)) :
    depth (offer :: rest) = offer.2 + depth rest := by
  simp [depth]

/-- Taking nothing costs nothing. -/
@[simp] theorem lift_zero {offers : List (K × K)} (h : Stocked offers) : lift offers 0 = 0 := by
  induction offers with
  | nil => rfl
  | cons offer rest ih =>
    obtain ⟨price, quantity⟩ := offer
    have hq : 0 < quantity := h _ List.mem_cons_self
    unfold lift
    rw [min_eq_right hq.le, mul_zero, sub_zero, ih h.tail, add_zero]

variable [IsStrictOrderedRing K]

/-- No book is less than empty. -/
theorem depth_nonneg {offers : List (K × K)} (h : Stocked offers) : 0 ≤ depth offers := by
  induction offers with
  | nil => exact le_refl 0
  | cons offer rest ih =>
    have hq := h offer List.mem_cons_self
    have hrest := ih h.tail
    rw [depth_cons]
    linarith

/-- What is lifted costs nothing less than zero. -/
theorem lift_nonneg {offers : List (K × K)} (h : Positive offers) {need : K} (hn : 0 ≤ need) :
    0 ≤ lift offers need := by
  induction offers generalizing need with
  | nil => exact le_refl 0
  | cons offer rest ih =>
    obtain ⟨price, quantity⟩ := offer
    obtain ⟨hp, hq⟩ := h _ List.mem_cons_self
    have htake : 0 ≤ min quantity need := le_min hq.le hn
    have hrest := ih h.tail (sub_nonneg.mpr (min_le_right quantity need))
    exact add_nonneg (mul_nonneg hp.le htake) hrest

/-- Taking something that is there costs something. -/
theorem lift_pos {offers : List (K × K)} (h : Positive offers) {need : K} (hn : 0 < need)
    (hdepth : 0 < depth offers) : 0 < lift offers need := by
  cases offers with
  | nil => exact absurd hdepth (lt_irrefl 0)
  | cons offer rest =>
    obtain ⟨price, quantity⟩ := offer
    obtain ⟨hp, hq⟩ := h _ List.mem_cons_self
    have htake : 0 < min quantity need := lt_min hq hn
    have hrest := lift_nonneg h.tail (sub_nonneg.mpr (min_le_right quantity need))
    exact add_pos_of_pos_of_nonneg (mul_pos hp htake) hrest

/-- Each further unit costs at least a price that no offer undercuts. -/
theorem lift_slope {offers : List (K × K)} (h : Stocked offers) {floor : K}
    (hfloor : ∀ offer ∈ offers, floor ≤ offer.1) {s r : K} (hs : 0 ≤ s) (hsr : s ≤ r)
    (hr : r ≤ depth offers) : lift offers s + floor * (r - s) ≤ lift offers r := by
  induction offers generalizing s r with
  | nil =>
    have hrs : r = s := le_antisymm (by rw [depth_nil] at hr; linarith) hsr
    subst hrs
    simp [lift]
  | cons offer rest ih =>
    obtain ⟨price, quantity⟩ := offer
    have hprice : floor ≤ price := hfloor _ List.mem_cons_self
    have hq : 0 < quantity := h _ List.mem_cons_self
    have hrest : ∀ o ∈ rest, floor ≤ o.1 := fun o ho => hfloor o (List.mem_cons_of_mem _ ho)
    rw [depth_cons] at hr
    rw [lift_cons, lift_cons]
    rcases le_total r quantity with hrq | hqr
    · -- both quantities end inside the first offer
      rw [min_eq_right hrq, min_eq_right (hsr.trans hrq), sub_self, sub_self, lift_zero h.tail]
      have := mul_le_mul_of_nonneg_right hprice (sub_nonneg.mpr hsr)
      linarith
    · rcases le_total s quantity with hsq | hqs
      · rw [min_eq_left hqr, min_eq_right hsq, sub_self, lift_zero h.tail]
        have hstep := ih h.tail hrest (le_refl 0) (sub_nonneg.mpr hqr) (by linarith)
        rw [lift_zero h.tail] at hstep
        have := mul_le_mul_of_nonneg_right hprice (sub_nonneg.mpr hsq)
        linarith
      · rw [min_eq_left hqr, min_eq_left hqs]
        have hstep := ih h.tail hrest (sub_nonneg.mpr hqs) (sub_le_sub_right hsr quantity)
          (by linarith)
        linarith

/-- Taking a part of the best offer and the rest in order costs at least as much
as taking the whole in order. -/
theorem lift_cons_le {price quantity : K} {rest : List (K × K)}
    (h : Stocked ((price, quantity) :: rest)) (hasc : Ascending ((price, quantity) :: rest))
    {take r : K} (htake : take ≤ quantity) (hr : 0 ≤ r) (hdepth : r ≤ depth rest) :
    lift ((price, quantity) :: rest) (take + r) ≤ price * take + lift rest r := by
  have hfloor : ∀ offer ∈ rest, price ≤ offer.1 := (List.pairwise_cons.mp hasc).1
  rw [lift_cons]
  rcases le_total (take + r) quantity with hle | hle
  · rw [min_eq_right hle, sub_self, lift_zero h.tail]
    have hstep := lift_slope h.tail hfloor (le_refl 0) hr hdepth
    rw [lift_zero h.tail] at hstep
    linarith
  · rw [min_eq_left hle]
    have hstep := lift_slope h.tail hfloor (s := take + r - quantity) (r := r)
      (sub_nonneg.mpr hle) (by linarith) hdepth
    linarith

/-! ## The best taking -/

/-- How much is taken of each offer: at most what it holds. -/
def Takes (offers : List (K × K)) (takes : List K) : Prop :=
  List.Forall₂ (fun offer take => 0 ≤ take ∧ take ≤ offer.2) offers takes

omit [LinearOrder K] [IsStrictOrderedRing K] in
/-- What a taking comes to. -/
def costOf (offers : List (K × K)) (takes : List K) : K :=
  (List.zipWith (fun offer take => offer.1 * take) offers takes).sum

/-- What the takings of a quantity come to. -/
def costs (offers : List (K × K)) (need : K) : Set K :=
  {cost | ∃ takes, Takes offers takes ∧ takes.sum = need ∧ costOf offers takes = cost}

/-- The taking of `lift`. -/
def inOrder : List (K × K) → K → List K
  | [], _ => []
  | (_, quantity) :: rest, need =>
    min quantity need :: inOrder rest (need - min quantity need)

omit [LinearOrder K] [IsStrictOrderedRing K] in
theorem costOf_cons (offer : K × K) (rest : List (K × K)) (take : K) (takes : List K) :
    costOf (offer :: rest) (take :: takes) = offer.1 * take + costOf rest takes := by
  simp [costOf]

/-- Taking in order takes no more than there is. -/
theorem takes_inOrder {offers : List (K × K)} (h : Stocked offers) {need : K} (hn : 0 ≤ need) :
    Takes offers (inOrder offers need) := by
  induction offers generalizing need with
  | nil => exact .nil
  | cons offer rest ih =>
    obtain ⟨price, quantity⟩ := offer
    have hq : 0 < quantity := h _ List.mem_cons_self
    have hrest : 0 ≤ need - min quantity need := sub_nonneg.mpr (min_le_right quantity need)
    exact .cons ⟨le_min hq.le hn, min_le_left quantity need⟩ (ih h.tail hrest)

/-- If the book is deep enough, it takes what is needed. -/
theorem sum_inOrder {offers : List (K × K)} (h : Stocked offers) {need : K} (hn : 0 ≤ need)
    (hd : need ≤ depth offers) : (inOrder offers need).sum = need := by
  induction offers generalizing need with
  | nil =>
    rw [depth_nil] at hd
    simp [inOrder, le_antisymm hd hn]
  | cons offer rest ih =>
    obtain ⟨price, quantity⟩ := offer
    have hrest : 0 ≤ need - min quantity need := sub_nonneg.mpr (min_le_right quantity need)
    have hleft : need - min quantity need ≤ depth rest := by
      rw [depth_cons] at hd
      rcases le_total quantity need with hle | hle
      · rw [min_eq_left hle]
        linarith
      · rw [min_eq_right hle, sub_self]
        exact depth_nonneg h.tail
    show min quantity need + (inOrder rest (need - min quantity need)).sum = need
    rw [ih h.tail hrest hleft]
    ring

omit [IsStrictOrderedRing K] in
theorem costOf_inOrder (offers : List (K × K)) (need : K) :
    costOf offers (inOrder offers need) = lift offers need := by
  induction offers generalizing need with
  | nil => rfl
  | cons offer rest ih =>
    obtain ⟨price, quantity⟩ := offer
    rw [inOrder, costOf_cons, ih, lift_cons]

/-- A taking takes no more than there is. -/
theorem Takes.sum_mem {offers : List (K × K)} {takes : List K} (h : Takes offers takes) :
    0 ≤ takes.sum ∧ takes.sum ≤ depth offers := by
  induction h with
  | nil => simp
  | cons htake _ ih =>
    obtain ⟨htake, hle⟩ := htake
    obtain ⟨hsum, hdepth⟩ := ih
    rw [List.sum_cons, depth_cons]
    exact ⟨add_nonneg htake hsum, add_le_add hle hdepth⟩

/-- The exchange argument: no taking costs less than the same quantity in order. -/
theorem Takes.lift_le {offers : List (K × K)} {takes : List K} (h : Takes offers takes)
    (hstock : Stocked offers) (hasc : Ascending offers) :
    lift offers takes.sum ≤ costOf offers takes := by
  induction h with
  | nil => exact le_refl 0
  | @cons offer take rest takes htake hrest ih =>
    obtain ⟨hsum, hdepth⟩ := Takes.sum_mem hrest
    have hfirst := lift_cons_le hstock hasc htake.2 hsum hdepth
    have hafter := ih hstock.tail (List.pairwise_cons.mp hasc).2
    rw [List.sum_cons, costOf_cons]
    linarith

/-- Up ascending prices, in order is the cheapest way. -/
theorem isLeast_lift {offers : List (K × K)} (h : Stocked offers) (hasc : Ascending offers)
    {need : K} (hn : 0 ≤ need) (hd : need ≤ depth offers) :
    IsLeast (costs offers need) (lift offers need) := by
  constructor
  · exact ⟨inOrder offers need, takes_inOrder h hn, sum_inOrder h hn hd, costOf_inOrder offers need⟩
  · rintro cost ⟨takes, htakes, rfl, rfl⟩
    exact htakes.lift_le h hasc

/-- The same offers at the negated prices. -/
def mirror (offers : List (K × K)) : List (K × K) := offers.map fun offer => (-offer.1, offer.2)

omit [IsStrictOrderedRing K] in
/-- Negating prices turns a side for buying into one for selling; the gross changes its
sign. -/
theorem lift_mirror (offers : List (K × K)) (need : K) :
    lift (mirror offers) need = -lift offers need := by
  induction offers generalizing need with
  | nil => exact neg_zero.symm
  | cons offer rest ih =>
    obtain ⟨price, quantity⟩ := offer
    show -price * min quantity need + lift (mirror rest) (need - min quantity need) = _
    rw [ih, lift_cons]
    ring

omit [LinearOrder K] [IsStrictOrderedRing K] in
/-- So does the cost of any choice. -/
theorem costOf_mirror (offers : List (K × K)) (takes : List K) :
    costOf (mirror offers) takes = -costOf offers takes := by
  induction offers generalizing takes with
  | nil => simp [costOf, mirror]
  | cons offer rest ih =>
    cases takes with
    | nil => simp [costOf]
    | cons take takes =>
      show costOf ((-offer.1, offer.2) :: mirror rest) (take :: takes) = _
      rw [costOf_cons, costOf_cons, ih]
      ring

omit [IsStrictOrderedRing K] in
theorem Stocked.mirror {offers : List (K × K)} (h : Stocked offers) : Stocked (mirror offers) := by
  intro offer hmem
  obtain ⟨o, ho, rfl⟩ := List.mem_map.mp hmem
  exact h o ho

theorem Descending.mirror {offers : List (K × K)} (h : Descending offers) :
    Ascending (mirror offers) :=
  List.pairwise_map.mpr (h.imp fun hle => neg_le_neg hle)

omit [IsStrictOrderedRing K] in
theorem Takes.mirror {offers : List (K × K)} {takes : List K} (h : Takes offers takes) :
    Takes (mirror offers) takes := List.forall₂_map_left_iff.mpr h

/-- Down descending prices, in order brings in the most. -/
theorem isGreatest_lift {offers : List (K × K)} (h : Stocked offers) (hdesc : Descending offers)
    {need : K} (hn : 0 ≤ need) (hd : need ≤ depth offers) :
    IsGreatest (costs offers need) (lift offers need) := by
  constructor
  · exact ⟨inOrder offers need, takes_inOrder h hn, sum_inOrder h hn hd, costOf_inOrder offers need⟩
  · rintro cost ⟨takes, htakes, rfl, rfl⟩
    have hle := htakes.mirror.lift_le h.mirror hdesc.mirror
    rw [lift_mirror, costOf_mirror] at hle
    exact neg_le_neg_iff.mp hle

/-- A price that no offer undercuts bounds the cost from below. -/
theorem le_lift {offers : List (K × K)} (h : Stocked offers) {floor : K}
    (hfloor : ∀ offer ∈ offers, floor ≤ offer.1) {need : K} (hn : 0 ≤ need)
    (hd : need ≤ depth offers) : floor * need ≤ lift offers need := by
  have hslope := lift_slope h hfloor (le_refl 0) hn hd
  rw [lift_zero h] at hslope
  linarith

omit [LinearOrder K] [IsStrictOrderedRing K] in
theorem depth_mirror (offers : List (K × K)) : depth (mirror offers) = depth offers := by
  rw [depth, mirror, List.map_map]
  rfl

/-- A price that no offer exceeds bounds the proceeds from above. -/
theorem lift_le {offers : List (K × K)} (h : Stocked offers) {top : K}
    (htop : ∀ offer ∈ offers, offer.1 ≤ top) {need : K} (hn : 0 ≤ need)
    (hd : need ≤ depth offers) : lift offers need ≤ top * need := by
  have hfloor : ∀ offer ∈ mirror offers, -top ≤ offer.1 := by
    intro offer hmem
    obtain ⟨o, ho, rfl⟩ := List.mem_map.mp hmem
    exact neg_le_neg (htop o ho)
  have hle := le_lift h.mirror hfloor hn (hd.trans_eq (depth_mirror offers).symm)
  rw [lift_mirror] at hle
  linarith

/-- Beyond what there is, nothing more is lifted. -/
theorem lift_beyond {offers : List (K × K)} (h : Stocked offers) {need : K}
    (hd : depth offers ≤ need) : lift offers need = lift offers (depth offers) := by
  induction offers generalizing need with
  | nil => rfl
  | cons offer rest ih =>
    obtain ⟨price, quantity⟩ := offer
    have hrest : 0 ≤ depth rest := depth_nonneg h.tail
    rw [depth_cons] at hd ⊢
    have hneed : quantity ≤ need := by linarith
    have hall : quantity ≤ quantity + depth rest := by linarith
    rw [lift_cons, lift_cons, min_eq_left hneed, min_eq_left hall, add_sub_cancel_left,
      ih h.tail (by linarith)]

/-- Lifting all that there is comes to the price of every offer. -/
theorem lift_depth {offers : List (K × K)} (h : Stocked offers) :
    lift offers (depth offers) = costOf offers (offers.map Prod.snd) := by
  induction offers with
  | nil => rfl
  | cons offer rest ih =>
    obtain ⟨price, quantity⟩ := offer
    have hle : quantity ≤ quantity + depth rest := le_add_of_nonneg_right (depth_nonneg h.tail)
    rw [depth_cons, lift_cons, min_eq_left hle, add_sub_cancel_left, ih h.tail, List.map_cons,
      costOf_cons]

end Symm.Lib
