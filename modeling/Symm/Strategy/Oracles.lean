import Symm.Strategy.Entering
import Symm.Ui.Tuning

/-!
# The broker oracles (`strategy/training.go`, `broker/price.go`, `kraken/ticker.go`)

Before the board of a symbol is emitted, training paints four of its oracle pairs from
the desk's own readings: the volume of 24 hours, the day's move, the spread and the book,
each against its risk floor. A reading below the floor lights the veto and darkens its
counterpart.

The grid is not part of this repository: how a region is lit and a board is emitted are
parameters, of which `Grid.Lawful` says what `SIGNALS.md` and the gate lab say. A price
that is not a number is left out.

- `refreshTicker`, `lightBroker`: the readings and the painting;
- `Reading.Passes`: the four floors;
- `passes_of_tradable`: an emitted board is tradable only where the floors are met.
-/

namespace Symm.Strategy.Oracles

open Symm.System Symm.Broker Symm.Ui

/-! ## The ticker -/

/-- The members of `kraken.TickerRow` that are read. -/
structure TickerRow where
  volume : List String
  vwap : List String
  last : List String
  opened : String

section Ticker

variable (parse : String → Option ℚ)

/-- `parseFloat`; `parse` is `strconv.ParseFloat`. -/
def parseFloat (raw : String) : ℚ := if raw = "" then 0 else (parse raw).getD 0

def atIndex (vals : List String) (i : ℕ) : ℚ := (vals[i]?).elim 0 (parseFloat parse)

/-- `QuoteVolume24h`. -/
def TickerRow.quoteVolume24h (row : TickerRow) : ℚ :=
  let base := atIndex parse row.volume 1
  let vwap := atIndex parse row.vwap 1
  if base ≤ 0 ∨ vwap ≤ 0 then 0 else base * vwap

/-- `ChangePct` of a row. -/
def TickerRow.changePct (row : TickerRow) : ℚ :=
  let opened := parseFloat parse row.opened
  let last := atIndex parse row.last 0
  if opened ≤ 0 ∨ last ≤ 0 then 0 else (last - opened) / opened * 100

end Ticker

/-- `tickerSnap`. -/
structure TickerSnap where
  volumeUSD : ℚ
  changePct : ℚ

/-- The tickers of a `Price`; a symbol without one reads as zero. -/
abbrev Tickers := String → TickerSnap

/-- `Price.SetTicker`. -/
def setTicker (tickers : Tickers) (symbol : String) (volumeUSD changePct : ℚ) : Tickers :=
  Function.update tickers symbol ⟨volumeUSD, changePct⟩

/-- `refreshTicker` where the poll succeeds; the rows come in the order of the map.
`name` is that of the normalizer. -/
def refreshTicker (parse : String → Option ℚ) (name : String → String) (tickers : Tickers)
    (rows : List (String × TickerRow)) : Tickers :=
  rows.foldl (fun tickers row =>
    let symbol := if name row.1 ≠ "" then name row.1 else row.1
    setTicker tickers symbol (row.2.quoteVolume24h parse) (row.2.changePct parse)) tickers

/-! ## The board -/

/-- What the grid does to a region and to a board. -/
structure Grid where
  shine : Region → Region
  emit : List Region → Bool → List Region

/-- `store.RegionCount`. -/
def regionCount : ℕ := 23

/-- The oracle pairs are at 9 and 10 up to 21 and 22. -/
structure OraclePair (i : ℕ) : Prop where
  first : 9 ≤ i
  last : i ≤ 21
  odd : i % 2 = 1

/-- A lit region is bright, and the brighter of veto and approve is emitted. -/
structure Grid.Lawful (grid : Grid) : Prop where
  lit : ∀ region, 0 < (grid.shine region).brightness
  key : ∀ region, (grid.shine region).key = region.key
  brighter : ∀ (regions : List Region) (isOpen : Bool) (i : ℕ) (veto approve : Region),
    OraclePair i → regions[i]? = some veto → regions[i + 1]? = some approve →
    0 < veto.brightness → approve.brightness < veto.brightness →
    ∃ region ∈ grid.emit regions isOpen, region.key = veto.key ∧ 0 < region.brightness

/-- The regions of a board stand at their keys. -/
structure Laid (regions : List Region) : Prop where
  length : regions.length = regionCount
  key : ∀ (i : ℕ) (region : Region), regions[i]? = some region → region.key = i

def zeroRegion (region : Region) : Region := { region with brightness := 0 }

/-- `Training.shine`. -/
def shine (grid : Grid) (veto approve : ℕ) (ok : Bool) (regions : List Region) : List Region :=
  if ok then (regions.modify approve grid.shine).modify veto zeroRegion
  else (regions.modify veto grid.shine).modify approve zeroRegion

/-- Whether the spread passes; a cap of zero is no limit. -/
def spreadOK (risk : Tuning.Risk) (spread : Option Decimal) : Bool :=
  decide (risk.maxEntrySpreadPct ≤ 0) || spread.any (· ≤ risk.maxEntrySpreadPct)

/-- `lightBroker`. -/
def lightBroker (grid : Grid) (risk : Tuning.Risk) (tickers : Tickers) (price : Price)
    (symbol : String) (regions : List Region) : Except Fault (List Region) :=
  if regions.length < regionCount then .ok regions
  else
    let snap := tickers symbol
    let regions := shine grid 9 10 (risk.minMoverVolumeUSD ≤ snap.volumeUSD) regions
    let regions := shine grid 11 12 (risk.minMoverChangePct ≤ snap.changePct) regions
    let regions := shine grid 13 14 (spreadOK risk (price.spreadPct symbol)) regions
    match price.bookIntact risk.toRisk symbol with
    | .error fault => .error fault
    | .ok intact => .ok (shine grid 15 16 intact regions)

/-- What `lightBroker` reads of a symbol, and the floors in force. -/
structure Reading where
  risk : Tuning.Risk
  volumeUSD : ℚ
  changePct : ℚ
  spread : Option Decimal
  intact : Except Fault Bool

def reading (risk : Tuning.Risk) (tickers : Tickers) (price : Price) (symbol : String) :
    Reading where
  risk := risk
  volumeUSD := (tickers symbol).volumeUSD
  changePct := (tickers symbol).changePct
  spread := price.spreadPct symbol
  intact := price.bookIntact risk.toRisk symbol

/-- The four floors are met. -/
structure Reading.Passes (r : Reading) : Prop where
  volume : r.risk.minMoverVolumeUSD ≤ r.volumeUSD
  move : r.risk.minMoverChangePct ≤ r.changePct
  spread : r.risk.maxEntrySpreadPct ≤ 0 ∨
    ∃ spread, r.spread = some spread ∧ spread ≤ r.risk.maxEntrySpreadPct
  book : r.intact = .ok true

/-- The veto of a pair is lit and its counterpart is dark. -/
def Vetoed (regions : List Region) (i : ℕ) : Prop :=
  ∃ veto approve, regions[i]? = some veto ∧ regions[i + 1]? = some approve ∧
    0 < veto.brightness ∧ approve.brightness = 0

section Painting

variable {grid : Grid} {regions : List Region} {i j k : ℕ} {ok : Bool}

/-- Shining changes the two regions of the oracle alone. -/
theorem getElem?_shine_other (hi : i ≠ k) (hj : j ≠ k) :
    (shine grid i j ok regions)[k]? = regions[k]? := by
  cases ok with
  | true =>
    show ((regions.modify j grid.shine).modify i zeroRegion)[k]? = _
    rw [List.getElem?_modify_ne _ _ hi, List.getElem?_modify_ne _ _ hj]
  | false =>
    show ((regions.modify i grid.shine).modify j zeroRegion)[k]? = _
    rw [List.getElem?_modify_ne _ _ hj, List.getElem?_modify_ne _ _ hi]

/-- It keeps each region at its key. -/
theorem laid_shine (hgrid : grid.Lawful) (h : Laid regions) : Laid (shine grid i j ok regions) := by
  have hmodify : ∀ (regions : List Region) (n : ℕ) (f : Region → Region), Laid regions →
      (∀ region, (f region).key = region.key) → Laid (regions.modify n f) := by
    intro regions n f h hf
    refine ⟨(List.length_modify _ _ _).trans h.length, fun k region hk => ?_⟩
    rw [List.getElem?_modify] at hk
    obtain ⟨before, hbefore, heq⟩ := Option.map_eq_some_iff.mp hk
    rw [← h.key k before hbefore, ← heq]
    split
    · exact hf before
    · rfl
  cases ok with
  | true => exact hmodify _ _ _ (hmodify _ _ _ h hgrid.key) fun _ => rfl
  | false => exact hmodify _ _ _ (hmodify _ _ _ h fun region => hgrid.key region) fun _ => rfl

/-- A reading that does not pass lights the veto. -/
theorem vetoed_shine (hgrid : grid.Lawful) (hlaid : Laid regions) (hpair : OraclePair i)
    (hok : ok = false) : Vetoed (shine grid i (i + 1) ok regions) i := by
  subst hok
  have hlen : i + 1 < regions.length := by
    rw [hlaid.length, regionCount]
    have hlast := hpair.last
    omega
  have hi : regions[i]? = some regions[i] := List.getElem?_eq_getElem (by omega)
  have hj : regions[i + 1]? = some regions[i + 1] := List.getElem?_eq_getElem hlen
  refine ⟨grid.shine regions[i], zeroRegion regions[i + 1], ?_, ?_, hgrid.lit _, rfl⟩
  · show ((regions.modify i grid.shine).modify (i + 1) zeroRegion)[i]? = _
    rw [List.getElem?_modify_ne _ _ (by omega), List.getElem?_modify_eq, hi]
    rfl
  · show ((regions.modify i grid.shine).modify (i + 1) zeroRegion)[i + 1]? = _
    rw [List.getElem?_modify_eq, List.getElem?_modify_ne _ _ (by omega), hj]
    rfl

/-- Painting another pair leaves a veto lit. -/
theorem Vetoed.shine_other (h : Vetoed regions i) (hj : i + 1 < j ∨ j + 1 < i) :
    Vetoed (shine grid j (j + 1) ok regions) i := by
  obtain ⟨veto, approve, hveto, happrove, hlit, hdark⟩ := h
  refine ⟨veto, approve, ?_, ?_, hlit, hdark⟩
  · rw [getElem?_shine_other (by omega) (by omega), hveto]
  · rw [getElem?_shine_other (by omega) (by omega), happrove]

/-- A veto that is lit after the emit blocks the board. -/
theorem not_tradable {board : List Region} {region : Region} (hmem : region ∈ board)
    (hpair : OraclePair region.key) (hlit : 0 < region.brightness) (approved : Bool) :
    tradable (board.map some) approved = false := by
  induction board generalizing approved with
  | nil => cases hmem
  | cons head board ih =>
    rw [List.map_cons, tradable]
    rcases List.mem_cons.mp hmem with rfl | hmem
    · have hfirst := hpair.first
      have hlast := hpair.last
      rw [if_neg, if_pos hpair.odd]
      rintro (hdark | hlow | hhigh)
      · exact absurd hlit (not_lt.mpr hdark)
      · omega
      · omega
    · split
      · exact ih hmem approved
      · split
        · rfl
        · exact ih hmem true

/-- A veto that is lit keeps the board from being tradable. -/
theorem not_tradable_of_vetoed (hgrid : grid.Lawful) (hlaid : Laid regions)
    (hpair : OraclePair i) (h : Vetoed regions i) (isOpen : Bool) :
    tradable ((grid.emit regions isOpen).map some) false = false := by
  obtain ⟨veto, approve, hveto, happrove, hlit, hdark⟩ := h
  obtain ⟨region, hmem, hkey, hregion⟩ := hgrid.brighter regions isOpen i veto approve hpair
    hveto happrove hlit (by rw [hdark]; exact hlit)
  refine not_tradable hmem ?_ hregion false
  rw [hkey, hlaid.key i veto hveto]
  exact hpair

end Painting

/-- The spread is fine up to its maximum, or where no maximum is set. -/
theorem spreadOK_iff {risk : Tuning.Risk} {spread : Option Decimal} :
    spreadOK risk spread = true ↔ risk.maxEntrySpreadPct ≤ 0 ∨
      ∃ value, spread = some value ∧ value ≤ risk.maxEntrySpreadPct := by
  unfold spreadOK
  rw [Bool.or_eq_true, decide_eq_true_eq, Option.any_eq_true]
  simp only [decide_eq_true_eq]

section LightBroker

variable {grid : Grid} {risk : Tuning.Risk} {tickers : Tickers} {price : Price}
  {symbol : String} {regions painted : List Region}

/-- A floor that is not met leaves its veto lit. -/
theorem vetoed_lightBroker (hgrid : grid.Lawful) (hlaid : Laid regions)
    (h : lightBroker grid risk tickers price symbol regions = .ok painted) :
    Laid painted ∧
      ((reading risk tickers price symbol).Passes ∨ ∃ i, OraclePair i ∧ Vetoed painted i) := by
  unfold lightBroker at h
  rw [if_neg (by rw [hlaid.length]; exact lt_irrefl _)] at h
  dsimp only at h
  cases hintact : price.bookIntact risk.toRisk symbol with
  | error fault =>
    rw [hintact] at h
    cases h
  | ok intact =>
    rw [hintact] at h
    obtain rfl := Except.ok.inj h
    have hlaid₁ : ∀ ok, Laid (shine grid 9 10 ok regions) := fun _ => laid_shine hgrid hlaid
    have hlaid₂ : ∀ ok ok', Laid (shine grid 11 12 ok' (shine grid 9 10 ok regions)) :=
      fun ok _ => laid_shine hgrid (hlaid₁ ok)
    have hlaid₃ : ∀ ok ok' ok'',
        Laid (shine grid 13 14 ok'' (shine grid 11 12 ok' (shine grid 9 10 ok regions))) :=
      fun ok ok' _ => laid_shine hgrid (hlaid₂ ok ok')
    refine ⟨laid_shine hgrid (hlaid₃ _ _ _), ?_⟩
    -- the first floor that is not met is the one whose veto is shown
    by_cases hvolume : risk.minMoverVolumeUSD ≤ (tickers symbol).volumeUSD
    · by_cases hmove : risk.minMoverChangePct ≤ (tickers symbol).changePct
      · cases hspread : spreadOK risk (price.spreadPct symbol) with
        | true =>
          cases intact with
          | true => exact .inl ⟨hvolume, hmove, spreadOK_iff.mp hspread, hintact⟩
          | false =>
            have hpair : OraclePair 15 := ⟨by omega, by omega, rfl⟩
            exact .inr ⟨15, hpair, vetoed_shine hgrid (hlaid₃ _ _ _) hpair rfl⟩
        | false =>
          have hpair : OraclePair 13 := ⟨by omega, by omega, rfl⟩
          have hlit := vetoed_shine (i := 13) hgrid (hlaid₂ (decide (risk.minMoverVolumeUSD ≤
            (tickers symbol).volumeUSD)) (decide (risk.minMoverChangePct ≤
            (tickers symbol).changePct))) hpair rfl
          exact .inr ⟨13, hpair, hlit.shine_other (.inl (by omega))⟩
      · have hpair : OraclePair 11 := ⟨by omega, by omega, rfl⟩
        have hlit := vetoed_shine (i := 11) hgrid (hlaid₁ (decide (risk.minMoverVolumeUSD ≤
          (tickers symbol).volumeUSD))) hpair (decide_eq_false hmove)
        exact .inr ⟨11, hpair, (hlit.shine_other (.inl (by omega))).shine_other (.inl (by omega))⟩
    · have hpair : OraclePair 9 := ⟨by omega, by omega, rfl⟩
      have hlit := vetoed_shine (i := 9) hgrid hlaid hpair (decide_eq_false hvolume)
      exact .inr ⟨9, hpair, ((hlit.shine_other (.inl (by omega))).shine_other
        (.inl (by omega))).shine_other (.inl (by omega))⟩

/-- The board of a symbol is tradable only where its floors are met. -/
theorem passes_of_tradable (hgrid : grid.Lawful) (hlaid : Laid regions)
    (h : lightBroker grid risk tickers price symbol regions = .ok painted) (isOpen : Bool)
    (htradable : tradable ((grid.emit painted isOpen).map some) false) :
    (reading risk tickers price symbol).Passes := by
  obtain ⟨hpainted, hpasses | ⟨i, hpair, hvetoed⟩⟩ := vetoed_lightBroker hgrid hlaid h
  · exact hpasses
  · rw [not_tradable_of_vetoed hgrid hpainted hpair hvetoed] at htradable
    cases htradable

end LightBroker

end Symm.Strategy.Oracles
