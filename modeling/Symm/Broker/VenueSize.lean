import Symm.Broker.Allocation

/-!
# Which allocated sizes the venue accepts

The touch cap and every trimmed remainder pass through the formatter, the fill
of the first walk does not: where the cash or the depth of the book ends that
walk, its size keeps the sixteen digits of the rounded quotient.

- `VenueLegal`: a quantity that is an `order_qty` of the pair;
- `Formatted`: what is read of the market and the wallet before the sizing and decides
  whether a formatter ends it;
- `sizeBuy_multiple_iff`: a fill is a multiple of the increment in three cases, the
  touch cap, the cut, and a quotient that happens to be one;
- `allocate_legal_iff`: the first two are `Formatted`, the third is the arithmetic of
  the cash and the best asks.

The formatter is a parameter that truncates to the digits of the pair. That it
truncates, and that the increment of the pair is its last digit, is all that is asked of
it.
-/

namespace Symm.Broker

open Symm.System Symm.Lib

/-- An integer multiple of a step. -/
def Multiple (step qty : Decimal) : Prop := ∃ n : ℤ, qty = n * step

/-- A quantity that is an `order_qty` of a pair. -/
structure VenueLegal (pair : InstrumentPair) (qty : Decimal) : Prop where
  increment : ∀ step, pair.qtyIncrement = some step → Multiple step qty
  minimum : ∀ qtyMin, pair.qtyMin = some qtyMin → qtyMin ≤ qty

/-- What is truncated to a number of digits is a multiple of the last of them. -/
theorem multiple_truncate (x : ℚ) (digits : Nat) :
    Multiple (1 / 10 ^ digits) (Decimal.truncate x digits) := by
  unfold Decimal.truncate
  dsimp only
  split
  · exact ⟨⌊x * 10 ^ digits⌋, by rw [mul_one_div]⟩
  · exact ⟨-⌊-(x * 10 ^ digits)⌋, by rw [Int.cast_neg, neg_mul, mul_one_div]⟩

namespace Price

/-- What decides whether a size is formatted, read of the market and the wallet
before the sizing: the formatted touch cap is within what the gross budget buys
of the asks, or that costs more than the budget with its fee and is cut, or it
is a multiple by itself. -/
def Formatted (risk : Risk) (digits : Nat) (managed : ManagedBook)
    (cash fee touchBid : Decimal) : Prop :=
  let budget := cash * risk.maxFraction
  let buys := bought (offers managed.asks) (Decimal.div budget (1 + fee * (1 / 100)))
  Decimal.truncate (Decimal.div touchBid risk.touchDivisor) digits ≤ buys.1 ∨
    Over (some fee) budget buys.2 ∨ Multiple (1 / 10 ^ digits) buys.1

/-- The fill of a cut is as the formatter left it. -/
theorem Cut.multiple {price : Price} {symbol : String} {offers : List (Decimal × Decimal)}
    {start : Decimal} {fill : Decimal × Decimal} {digits : Nat}
    (hformat : ∀ size, price.formatSize symbol size = some (Decimal.truncate size digits))
    (h : Cut price symbol offers start fill) : Multiple (1 / 10 ^ digits) fill.1 := by
  obtain ⟨part, hpart⟩ := h.formatted
  rw [hpart, hformat part]
  exact multiple_truncate part digits

/-- A fill is a multiple exactly when the touch cap ended the walk, the walk was
cut, or the cash buys a multiple. -/
theorem sizeBuy_multiple_iff {price : Price} {managed : ManagedBook} {symbol : String}
    {pair : InstrumentPair} {fee : Option Decimal} {budget grossBudget touchCap : Decimal}
    {fill : Decimal × Decimal} {digits : Nat}
    (hformat : ∀ size, price.formatSize symbol size = some (Decimal.truncate size digits))
    (h : price.sizeBuy managed symbol pair fee budget grossBudget touchCap = .ok fill) :
    Multiple (1 / 10 ^ digits) fill.1 ↔
      Decimal.truncate touchCap digits ≤ (bought (offers managed.asks) grossBudget).1 ∨
        Over fee budget (bought (offers managed.asks) grossBudget).2 ∨
        Multiple (1 / 10 ^ digits) (bought (offers managed.asks) grossBudget).1 := by
  obtain ⟨cap, filled, gross, hcap, -, hpos, -, hwalk, htrim⟩ := sizeBuy_ok h
  rw [hformat touchCap] at hcap
  have hcap : Decimal.truncate touchCap digits = cap := hcap
  obtain ⟨hfill, hgross⟩ := walk_capped managed.asks hpos.le grossBudget 0 0
  rw [hwalk, zero_add] at hfill hgross
  obtain ⟨hfits, hend⟩ := trim_ok 8 htrim
  rw [hcap]
  generalize bought (offers managed.asks) grossBudget = buys at hfill hgross ⊢
  rcases le_or_gt cap buys.1 with hle | hlt
  · -- the touch cap ends the walk
    have hfilled : filled = cap := hfill.trans (min_eq_left hle)
    have hmultiple : Multiple (1 / 10 ^ digits) fill.1 := by
      rcases hend with rfl | ⟨-, hcut⟩
      · rw [hfilled, ← hcap]
        exact multiple_truncate touchCap digits
      · exact hcut.multiple hformat
    exact iff_of_true hmultiple (.inl hle)
  · -- the cash or the depth ends the walk
    have hfilled : filled = buys.1 := hfill.trans (min_eq_right hlt.le)
    have hspent : gross = buys.2 := hgross hlt.le
    rcases hend with rfl | ⟨hover, hcut⟩
    · rw [← hfilled, ← hspent]
      constructor
      · intro hmultiple
        exact .inr (.inr hmultiple)
      · rintro (hle | hover | hmultiple)
        · exact absurd (hfilled ▸ hle) (not_le.mpr hlt)
        · exact absurd hover hfits.not_over
        · exact hmultiple
    · exact iff_of_true (hcut.multiple hformat) (.inr (.inl (hspent ▸ hover)))

/-- For a pair whose increment is its last digit, and a formatter that truncates
to it, a size is legal exactly when something formats it. -/
theorem allocate_legal_iff {price : Price} {risk : Risk} {symbol : String}
    {wallet : Option Balance} {desk : Balance} {digits : Nat}
    {cash fee touchBid qty : Decimal} {managed : ManagedBook}
    (hstep : (price.pair symbol).qtyIncrement = some (1 / 10 ^ digits))
    (hformat : ∀ size, price.formatSize symbol size = some (Decimal.truncate size digits))
    (hdesk : (wallet.orElse fun _ => price.balance) = some desk)
    (hcash : desk.cashFor (price.pair symbol).quote = some cash)
    (hfee : price.fee symbol = some fee) (hbook : price.books symbol = some managed)
    (htouch : managed.bids.head?.bind Level.quantity = some touchBid)
    (h : price.allocate risk symbol wallet = .ok (.ok qty)) :
    VenueLegal (price.pair symbol) qty ↔ Formatted risk digits managed cash fee touchBid := by
  obtain ⟨desk', cash', qtyMin, _, fee', managed', hdesk', hcash', hmin, -, hfee', hbook', hsized⟩ :=
    allocate_ok h
  rw [hdesk] at hdesk'
  cases hdesk'
  rw [hcash] at hcash'
  cases hcash'
  rw [hfee] at hfee'
  cases hfee'
  rw [hbook] at hbook'
  cases hbook'
  obtain ⟨touchBid', gross, htouch', hbuy, hleast⟩ := sizeOn_ok hsized
  rw [htouch] at htouch'
  cases htouch'
  -- the least quantity is met in any case, so the increment decides
  have hiff := sizeBuy_multiple_iff hformat hbuy
  constructor
  · intro hlegal
    exact hiff.mp (hlegal.increment _ hstep)
  · intro hformatted
    refine ⟨fun step hs => ?_, fun least hl => ?_⟩
    · rw [hstep] at hs
      cases hs
      exact hiff.mpr hformatted
    · rw [hmin] at hl
      cases hl
      exact hleast

end Price

/-- The market of `TestAllocateCapsAtTouchDivisor`. -/
def touchBoundPrice : Price where
  books := fun _ => some ⟨[⟨some 99, some 300⟩], [⟨some 100, some 10000⟩], none, none⟩
  blockReason := fun _ => ""
  fee := fun _ => some (2 / 5)
  pair := fun _ => ⟨"USD", some (1 / 100), some 1, some (1 / 100)⟩
  balance := some ⟨"USD", fun _ => some 1000000⟩
  formatSize := fun _ size => some (Decimal.truncate size 2)

/-- Its touch cap of a hundred is what is sized, and legal. -/
theorem Price.allocate_legal_sample : VenueLegal (touchBoundPrice.pair "AAA/USD") 100 := by
  have hdesk : ((none : Option Balance).orElse fun _ => touchBoundPrice.balance) =
      some ⟨"USD", fun _ => some 1000000⟩ := rfl
  have hsized : touchBoundPrice.allocate Cfg.defaults.risk "AAA/USD" none = .ok (.ok 100) := by
    decide +kernel
  have hstep : (touchBoundPrice.pair "AAA/USD").qtyIncrement = some (1 / 10 ^ 2) := by
    decide +kernel
  refine (Price.allocate_legal_iff hstep (fun _ => rfl) hdesk rfl rfl rfl rfl hsized).mpr ?_
  exact .inl (by decide +kernel)

/-- Where the cash ends the walk, the size has sixteen digits on a pair that
takes two. -/
theorem Price.cash_bound_size_illegal :
    (cashBoundPrice.pair "BBB/USD").qtyIncrement = some (1 / 10 ^ 2) ∧
      (∀ size, cashBoundPrice.formatSize "BBB/USD" size = some (Decimal.truncate size 2)) ∧
      ∃ qty, cashBoundPrice.allocate Cfg.defaults.risk "BBB/USD" none = .ok (.ok qty) ∧
        ¬ VenueLegal (cashBoundPrice.pair "BBB/USD") qty := by
  refine ⟨by decide +kernel, fun _ => rfl, 19841269841269841 / 10 ^ 16, by decide +kernel, ?_⟩
  intro hlegal
  obtain ⟨n, hn⟩ := hlegal.increment (1 / 100) rfl
  have hint : (19841269841269841 : ℚ) = n * 10 ^ 14 := by
    field_simp at hn
    linarith
  have hnat : (19841269841269841 : ℤ) = n * 10 ^ 14 := by exact_mod_cast hint
  omega

end Symm.Broker
