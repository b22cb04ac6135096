import Mathlib.Data.Int.Order.Basic
import Mathlib.Logic.Function.Basic
import Symm.Lib.Machine

/-!
# The scroll buffer (`workbench/warehouse-handler.ts`)

The handler keeps one buffered window of rows and one fetch in flight per view.
A call of `viewGetData` is served from the buffer if that covers its window; it
otherwise waits for the fetch, which it starts if there is none, and looks again,
four times at most, before it asks the warehouse directly.

A view is a list of rows. A statement is answered at a later step with the rows of
the view that had its name when it was sent; what the columns of a window make of a
row is `columns`. The promise of a fetch settles, and wakes each caller, in steps
of their own, so that whatever else the page does may come between.

- `Handler`, `Event`, `step`: the maps of the module and the calls that wait;
- `Fresh`: an answer is not overtaken by the deletion of its view;
- `fills_exact`: along runs of fresh answers every slice filled from a buffer holds
  the rows of the view.

A fetch asks for more rows than the call does, before and after them, so that the next
windows are in the buffer too; what a call gets is the slice of the buffer at its
offset. `Holds` says that a buffer has a window of the view's rows and knows where it
begins, and a slice of a window is a window (`Holds.fillSlice`).
-/

namespace Symm.Workbench.ScrollBuffer

open Symm.Lib

universe u

variable {Row : Type u} (columns : Option ℤ → Option ℤ → Row → Row)

structure Viewport where
  startRow : Option ℤ
  endRow : Option ℤ
  startCol : Option ℤ
  endCol : Option ℤ
  deriving DecidableEq, Repr

structure ViewportBuffer (Row : Type u) where
  viewId : String
  startRow : ℤ
  endRow : ℤ
  startCol : Option ℤ
  endCol : Option ℤ
  table : List Row

def bufferRows : ℤ := 2000

def overscanRows : ℤ := 400

/-- Where the promise of a fetch is: its statement is under way, the fetch has
resolved or rejected, or `finally` has run and its callers may go on. -/
inductive Status
  | sent
  | answered (resolved : Bool)
  | settled (resolved : Bool)
  deriving DecidableEq

/-- A call of `fetchViewportBuffer`, with the rows of the view that its statement
found. -/
structure Fetch (Row : Type u) where
  viewId : String
  startCol : Option ℤ
  endCol : Option ℤ
  targetStart : ℤ
  targetEnd : ℤ
  view : Option (List Row)
  status : Status

/-- A call of `viewGetData` that waits for a fetch. -/
structure Call where
  viewId : String
  viewport : Viewport
  attempt : ℕ
  pending : ℕ

/-- What a slice was filled with from a buffer. -/
structure Fill (Row : Type u) where
  viewId : String
  startRow : ℤ
  endRow : ℤ
  startCol : Option ℤ
  endCol : Option ℤ
  rows : List Row
  deriving DecidableEq

structure Handler (Row : Type u) where
  /-- The views of the warehouse. -/
  views : String → Option (List Row)
  viewportBuffers : String → Option (ViewportBuffer Row)
  inFlightFetches : String → Option ℕ
  fetches : ℕ → Option (Fetch Row)
  sent : ℕ
  calls : ℕ → Option Call
  made : ℕ
  /-- What the last step filled a slice with from a buffer. -/
  filled : Option (Fill Row)

def Handler.new : Handler Row where
  views := fun _ => none
  viewportBuffers := fun _ => none
  inFlightFetches := fun _ => none
  fetches := fun _ => none
  sent := 0
  calls := fun _ => none
  made := 0
  filled := none

namespace Viewport

/-- `startRow` of `viewGetData`. -/
def start (viewport : Viewport) : ℤ := viewport.startRow.getD 0

/-- `endRow` of `viewGetData`. -/
def stop (viewport : Viewport) : ℤ := viewport.endRow.getD (viewport.start + 33)

end Viewport

def covers (cached : ViewportBuffer Row) (startRow endRow : ℤ) (viewport : Viewport) : Bool :=
  cached.startCol = viewport.startCol ∧ cached.endCol = viewport.endCol ∧
    cached.startRow ≤ startRow ∧ endRow ≤ cached.endRow

/-- `Table.slice`, with indexes that are not negative. -/
def slice (table : List Row) (start stop : ℤ) : List Row :=
  (table.take stop.toNat).drop start.toNat

/-- The rows that `fillSlice` hands on. -/
def fillSlice (cached : ViewportBuffer Row) (startRow endRow : ℤ) : List Row :=
  let numRows : ℤ := cached.table.length
  let relStart := min numRows (max 0 (startRow - cached.startRow))
  let relEnd := min numRows (max relStart (endRow - cached.startRow))
  slice cached.table relStart relEnd

/-- The rows of a view that a window of rows and columns selects. -/
def window (rows : List Row) (start stop : ℤ) (startCol endCol : Option ℤ) : List Row :=
  (slice rows start stop).map (columns startCol endCol)

namespace Handler

def fromCache (h : Handler Row) (viewId : String) (viewport : Viewport) : Option (Fill Row) :=
  match h.viewportBuffers viewId with
  | none => none
  | some cached =>
    if covers cached viewport.start viewport.stop viewport then
      some
        { viewId := viewId
          startRow := viewport.start
          endRow := viewport.stop
          startCol := viewport.startCol
          endCol := viewport.endCol
          rows := fillSlice cached viewport.start viewport.stop }
    else none

/-- `fetchViewportBuffer` up to its `await`: the statement is sent. -/
def fetchViewportBuffer (h : Handler Row) (viewId : String) (viewport : Viewport)
    (startRow rowCount : ℤ) : Handler Row :=
  let targetStart := max 0 (startRow - overscanRows)
  let targetEnd := targetStart + max bufferRows (rowCount + overscanRows)
  let fetch : Fetch Row :=
    { viewId := viewId
      startCol := viewport.startCol
      endCol := viewport.endCol
      targetStart := targetStart
      targetEnd := targetEnd
      view := h.views viewId
      status := .sent }
  { h with fetches := Function.update h.fetches h.sent (some fetch), sent := h.sent + 1 }

/-- `await` on a fetch, by the call of number `c`. -/
def wait (h : Handler Row) (c : ℕ) (call : Call) (fetch : ℕ) : Handler Row :=
  { h with calls := Function.update h.calls c (some { call with pending := fetch }) }

/-- The call is over. -/
def finish (h : Handler Row) (c : ℕ) : Handler Row :=
  { h with calls := Function.update h.calls c none }

/-- One turn of the loop of `viewGetData`, and after four the direct query. -/
def turn (h : Handler Row) (c : ℕ) (call : Call) : Handler Row :=
  match h.fromCache call.viewId call.viewport with
  | some fill => { h with filled := some fill }.finish c
  | none =>
    if call.attempt < 4 then
      match h.inFlightFetches call.viewId with
      | some fetch => h.wait c call fetch
      | none =>
        let h' := h.fetchViewportBuffer call.viewId call.viewport call.viewport.start
          (call.viewport.stop - call.viewport.start)
        { h' with inFlightFetches :=
            Function.update h'.inFlightFetches call.viewId (some h.sent) }.wait c call h.sent
    else h.finish c

def viewGetData (h : Handler Row) (viewId : String) (viewport : Viewport) : Handler Row :=
  if viewport.stop - viewport.start ≤ 0 then h
  else { h with made := h.made + 1 }.turn h.made ⟨viewId, viewport, 0, 0⟩

def setStatus (h : Handler Row) (f : ℕ) (status : Status) : Handler Row :=
  { h with fetches :=
      Function.update h.fetches f ((h.fetches f).map fun x => { x with status := status }) }

/-- `fetchViewportBuffer` after its `await`: an answer without bytes is not kept. -/
def answer (h : Handler Row) (fetch : Fetch Row) (rows : List Row) (empty : Bool) : Handler Row :=
  if empty then h
  else
    let table := window columns rows fetch.targetStart fetch.targetEnd fetch.startCol fetch.endCol
    { h with viewportBuffers := Function.update h.viewportBuffers fetch.viewId (some
        { viewId := fetch.viewId
          startRow := fetch.targetStart
          endRow := fetch.targetStart + table.length
          startCol := fetch.startCol
          endCol := fetch.endCol
          table := table }) }

/-- `finally`: the fetch is no longer in flight, unless another is. -/
def settle (h : Handler Row) (fetch : Fetch Row) (f : ℕ) : Handler Row :=
  if h.inFlightFetches fetch.viewId = some f then
    { h with inFlightFetches := Function.update h.inFlightFetches fetch.viewId none }
  else h

def viewDelete (h : Handler Row) (viewId : String) : Handler Row :=
  { h with
    views := Function.update h.views viewId none
    viewportBuffers := Function.update h.viewportBuffers viewId none
    inFlightFetches := Function.update h.inFlightFetches viewId none }

end Handler

/-- What happens next. -/
inductive Event (Row : Type u)
  /-- A view is materialized, under a name that no view has. -/
  | create (viewId : String) (rows : List Row)
  | delete (viewId : String)
  | get (viewId : String) (viewport : Viewport)
  /-- The statement of a fetch is answered, with bytes or without; one that found no
  view is answered with an error. -/
  | land (fetch : ℕ) (empty : Bool)
  | fail (fetch : ℕ)
  | settle (fetch : ℕ)
  /-- A caller of a settled fetch goes on. -/
  | resume (call : ℕ)

/-- A step, on a handler whose last step filled nothing. -/
def act (h : Handler Row) : Event Row → Handler Row
  | .create viewId rows =>
    if (h.views viewId).isSome then h
    else { h with views := Function.update h.views viewId (some rows) }
  | .delete viewId => h.viewDelete viewId
  | .get viewId viewport => h.viewGetData viewId viewport
  -- the worker answers with the rows that the view had when it was asked
  | .land f empty =>
    match h.fetches f with
    | none => h
    | some fetch =>
      if fetch.status = .sent then
        match fetch.view with
        | none => h.setStatus f (.answered false)
        | some rows => (h.answer columns fetch rows empty).setStatus f (.answered true)
      else h
  | .fail f =>
    match h.fetches f with
    | none => h
    | some fetch => if fetch.status = .sent then h.setStatus f (.answered false) else h
  -- `then` and `catch` of the fetch
  | .settle f =>
    match h.fetches f with
    | none => h
    | some fetch =>
      match fetch.status with
      | .answered resolved => (h.settle fetch f).setStatus f (.settled resolved)
      | _ => h
  -- the call wakes up once its fetch has settled, and looks at the buffer again
  | .resume c =>
    match h.calls c with
    | none => h
    | some call =>
      match (h.fetches call.pending).map Fetch.status with
      | some (.settled true) => h.turn c { call with attempt := call.attempt + 1 }
      | some (.settled false) => h.finish c
      | _ => h

def step (h : Handler Row) (e : Event Row) : Handler Row := act columns { h with filled := none } e

/-! ## What the results are about -/

/-- A slice that was filled from a buffer holds the rows of the view now held under
its name, from the first row of the window to its last or that of the view, with the
columns of the window. -/
def Exact (h : Handler Row) : Prop :=
  ∀ fill, h.filled = some fill → ∃ rows, h.views fill.viewId = some rows ∧
    fill.rows = window columns rows fill.startRow (min fill.endRow rows.length) fill.startCol
      fill.endCol

/-- An answer that is kept finds the rows of its view still held under its name. -/
def Fresh (h : Handler Row) (e : Event Row) : Prop :=
  ∀ f fetch rows, e = .land f false → h.fetches f = some fetch → fetch.status = .sent →
    fetch.view = some rows → h.views fetch.viewId = some rows

/-! ## What a buffer serves -/

variable {columns} {rows : List Row} {cached : ViewportBuffer Row} {viewport : Viewport}

/-- The buffer holds a window of the rows. -/
structure Holds (columns : Option ℤ → Option ℤ → Row → Row) (rows : List Row)
    (cached : ViewportBuffer Row) : Prop where
  start_nonneg : 0 ≤ cached.startRow
  endRow : cached.endRow = cached.startRow + cached.table.length
  table : ∃ stop, cached.table =
    window columns rows cached.startRow stop cached.startCol cached.endCol

/-- A slice that ends where it starts is empty. -/
theorem slice_empty (table : List Row) {start stop : ℤ} (h : stop ≤ start) :
    slice table start stop = [] := by
  refine List.drop_eq_nil_of_le ?_
  rw [List.length_take]
  have := Int.toNat_le_toNat h
  omega

/-- A slice of a slice, counted from its start. -/
theorem slice_slice (table : List Row) {s a e stop : ℤ} (hs : 0 ≤ s) (ha : s ≤ a) (he : e ≤ stop) :
    slice (slice table s stop) (a - s) (e - s) = slice table a e := by
  obtain ⟨s, rfl⟩ := Int.eq_ofNat_of_zero_le hs
  obtain ⟨a, rfl⟩ := Int.eq_ofNat_of_zero_le (hs.trans ha)
  have hsa : s ≤ a := Int.ofNat_le.mp ha
  have hto : (s : ℤ).toNat = s := rfl
  have hta : (a : ℤ).toNat = a := rfl
  have hdiff : ((a : ℤ) - s).toNat = a - s := by omega
  unfold slice
  rw [hto, hta, hdiff, List.take_drop, List.drop_drop, List.take_take, Nat.add_sub_cancel' hsa]
  rcases le_or_gt e s with hle | hlt
  · -- nothing is taken on either side
    rw [List.drop_eq_nil_of_le, List.drop_eq_nil_of_le] <;> rw [List.length_take] <;> omega
  · congr 2
    omega

/-- A window has the rows between its bounds that are there. -/
theorem length_window (startCol endCol : Option ℤ) (start stop : ℤ) :
    (window columns rows start stop startCol endCol).length =
      min stop.toNat rows.length - start.toNat := by
  rw [window, slice, List.length_map, List.length_drop, List.length_take]

/-- What a buffer that covers a window serves of it. -/
theorem Holds.fillSlice (h : Holds columns rows cached)
    (hc : covers cached viewport.start viewport.stop viewport = true) :
    fillSlice cached viewport.start viewport.stop =
      window columns rows viewport.start (min viewport.stop rows.length) viewport.startCol
        viewport.endCol := by
  obtain ⟨hcol, hcol', hstart, hstop⟩ := of_decide_eq_true hc
  obtain ⟨hnonneg, hend, stop, htable⟩ := h
  generalize viewport.start = a at hstart ⊢
  generalize viewport.stop = e at hstop ⊢
  unfold ScrollBuffer.fillSlice
  dsimp only
  rcases le_or_gt e a with hle | hlt
  · rw [slice_empty _ (by omega), window, slice_empty _ (by omega)]
    rfl
  · -- the window lies inside the buffer
    have hlen : (window columns rows cached.startRow stop cached.startCol cached.endCol).length =
        min stop.toNat rows.length - cached.startRow.toNat := length_window _ _ _ _
    rw [← htable] at hlen
    have hrel : min (cached.table.length : ℤ) (max 0 (a - cached.startRow)) =
        a - cached.startRow := by omega
    have hrel' : min (cached.table.length : ℤ) (max (a - cached.startRow) (e - cached.startRow)) =
        e - cached.startRow := by omega
    have hfull : min e (rows.length : ℤ) = e := by omega
    rw [hrel, hrel', hfull, htable, window, hcol, hcol', window]
    have hmap : ∀ (l : List Row) (f : Row → Row) (x y : ℤ),
        slice (l.map f) x y = (slice l x y).map f := by
      intro l f x y
      rw [slice, slice, List.map_drop, List.map_take]
    rw [hmap, slice_slice rows hnonneg hstart (by omega)]

/-! ## The invariant -/

/-- Every buffer holds a window of the view now held under its name, what the last
step filled is exact, and no fetch starts before the first row. -/
structure Inv (columns : Option ℤ → Option ℤ → Row → Row) (h : Handler Row) : Prop where
  buffers : ∀ viewId cached, h.viewportBuffers viewId = some cached →
    ∃ rows, h.views viewId = some rows ∧ Holds columns rows cached
  exact_fill : Exact columns h
  targets : ∀ f fetch, h.fetches f = some fetch → 0 ≤ fetch.targetStart

section Steps

variable {h : Handler Row} {viewId : String}

theorem inv_new : Inv columns (Handler.new : Handler Row) where
  buffers := by
    intro viewId cached hb
    cases hb
  exact_fill := by
    intro fill hf
    cases hf
  targets := by
    intro f fetch hf
    cases hf

namespace Inv

/-- A step starts with nothing filled. -/
theorem clear (hi : Inv columns h) : Inv columns { h with filled := none } where
  buffers := hi.buffers
  exact_fill := by
    intro fill hf
    cases hf
  targets := hi.targets

/-- A call that ends touches no buffer. -/
theorem finish (hi : Inv columns h) (c : ℕ) : Inv columns (h.finish c) :=
  ⟨hi.buffers, hi.exact_fill, hi.targets⟩

theorem wait (hi : Inv columns h) (c : ℕ) (call : Call) (f : ℕ) :
    Inv columns (h.wait c call f) := ⟨hi.buffers, hi.exact_fill, hi.targets⟩

theorem inFlight (hi : Inv columns h) (inFlight : String → Option ℕ) :
    Inv columns { h with inFlightFetches := inFlight } := ⟨hi.buffers, hi.exact_fill, hi.targets⟩

theorem setStatus (hi : Inv columns h) (f : ℕ) (status : Status) :
    Inv columns (h.setStatus f status) where
  buffers := hi.buffers
  exact_fill := hi.exact_fill
  targets := by
    intro k fetch hk
    have hk' : Function.update h.fetches f
        ((h.fetches f).map fun x => { x with status := status }) k = some fetch := hk
    by_cases hkf : k = f
    · subst hkf
      rw [Function.update_self] at hk'
      obtain ⟨x, hx, rfl⟩ := Option.map_eq_some_iff.mp hk'
      exact hi.targets k x hx
    · rw [Function.update_of_ne hkf] at hk'
      exact hi.targets k fetch hk'

/-- A fetch is sent for a window that starts within the rows. -/
theorem fetch (hi : Inv columns h) (viewId : String) (viewport : Viewport)
    (startRow rowCount : ℤ) :
    Inv columns (h.fetchViewportBuffer viewId viewport startRow rowCount) where
  buffers := hi.buffers
  exact_fill := hi.exact_fill
  targets := by
    intro k fetch hk
    have hk' : Function.update h.fetches h.sent _ k = some fetch := hk
    by_cases hks : k = h.sent
    · rw [hks, Function.update_self] at hk'
      obtain rfl := Option.some.inj hk'
      exact le_max_left 0 _
    · rw [Function.update_of_ne hks] at hk'
      exact hi.targets k fetch hk'

/-- What a covering buffer fills a slice with is exact. -/
theorem fill (hi : Inv columns h) {fill : Fill Row}
    (hf : h.fromCache viewId viewport = some fill) :
    Inv columns { h with filled := some fill } where
  buffers := hi.buffers
  exact_fill := by
    rintro fill' ⟨⟩
    unfold Handler.fromCache at hf
    split at hf
    · cases hf
    · rename_i cached hcached
      split at hf
      · rename_i hcovers
        obtain ⟨rows, hrows, hholds⟩ := hi.buffers viewId cached hcached
        obtain rfl := Option.some.inj hf
        exact ⟨rows, hrows, hholds.fillSlice hcovers⟩
      · cases hf
  targets := hi.targets

/-- A call reads its buffer or waits for a fetch. -/
theorem turn (hi : Inv columns h) (c : ℕ) (call : Call) : Inv columns (h.turn c call) := by
  unfold Handler.turn
  split
  · rename_i fill hfill
    exact (hi.fill hfill).finish c
  · split
    · split
      · exact hi.wait c call _
      · exact ((hi.fetch _ _ _ _).inFlight _).wait c call _
    · exact hi.finish c

theorem viewDelete (hi : Inv columns h) (hnone : h.filled = none) (viewId : String) :
    Inv columns (h.viewDelete viewId) where
  buffers := by
    intro k cached hk
    have hk' : Function.update h.viewportBuffers viewId none k = some cached := hk
    show ∃ rows, Function.update h.views viewId none k = some rows ∧ _
    by_cases hkv : k = viewId
    · rw [hkv, Function.update_self] at hk'
      cases hk'
    · rw [Function.update_of_ne hkv] at hk'
      rw [Function.update_of_ne hkv]
      exact hi.buffers k cached hk'
  exact_fill := by
    intro fill hf
    rw [show (h.viewDelete viewId).filled = h.filled from rfl, hnone] at hf
    cases hf
  targets := hi.targets

/-- A new view has no buffer. -/
theorem create (hi : Inv columns h) (hnone : h.filled = none) (hview : h.views viewId = none)
    (rows : List Row) :
    Inv columns { h with views := Function.update h.views viewId (some rows) } where
  buffers := by
    intro k cached hk
    obtain ⟨rows', hrows, hholds⟩ := hi.buffers k cached hk
    have hkv : k ≠ viewId := by
      rintro rfl
      rw [hview] at hrows
      cases hrows
    refine ⟨rows', ?_, hholds⟩
    show Function.update h.views viewId (some rows) k = some rows'
    rw [Function.update_of_ne hkv]
    exact hrows
  exact_fill := by
    intro fill hf
    have hf' : h.filled = some fill := hf
    rw [hnone] at hf'
    cases hf'
  targets := hi.targets

/-- An answer that finds its view still held becomes its buffer. -/
theorem answer (hi : Inv columns h) {fetch : Fetch Row} {rows : List Row} {empty : Bool}
    (htarget : 0 ≤ fetch.targetStart)
    (hview : empty = false → h.views fetch.viewId = some rows) :
    Inv columns (h.answer columns fetch rows empty) := by
  unfold Handler.answer
  split
  · exact hi
  · rename_i hempty
    refine ⟨?_, hi.exact_fill, hi.targets⟩
    intro k cached hk
    have hk' : Function.update h.viewportBuffers fetch.viewId _ k = some cached := hk
    by_cases hkv : k = fetch.viewId
    · rw [hkv, Function.update_self] at hk'
      obtain rfl := Option.some.inj hk'
      refine ⟨rows, ?_, htarget, rfl, fetch.targetEnd, rfl⟩
      rw [hkv]
      exact hview (by simpa using hempty)
    · rw [Function.update_of_ne hkv] at hk'
      exact hi.buffers k cached hk'

end Inv

/-- Every step keeps the invariant, if no answer comes after its view is gone. -/
theorem inv_step (hi : Inv columns h) (e : Event Row) (hfresh : Fresh h e) :
    Inv columns (step columns h e) := by
  -- each step starts with nothing filled
  have hc := hi.clear
  unfold step
  cases e with
  | create viewId rows =>
    dsimp only [act]
    split
    · exact hc
    · rename_i hview
      exact hc.create rfl (Option.not_isSome_iff_eq_none.mp hview) rows
  | delete viewId => exact hc.viewDelete rfl viewId
  | get viewId viewport =>
    dsimp only [act, Handler.viewGetData]
    split
    · exact hc
    · have hmade : Inv columns { h with filled := none, made := h.made + 1 } :=
        ⟨hc.buffers, hc.exact_fill, hc.targets⟩
      exact hmade.turn _ _
  | land f empty =>
    dsimp only [act]
    cases hf : h.fetches f with
    | none => exact hc
    | some fetch =>
      dsimp only
      split
      · rename_i hsent
        cases hview : fetch.view with
        | none => exact hc.setStatus f _
        | some rows =>
          -- the answer is written to a view that is still there
          refine (hc.answer (hi.targets f fetch hf) fun hempty => ?_).setStatus f _
          exact hfresh f fetch rows (by rw [hempty]) hf hsent hview
      · exact hc
  | fail f =>
    dsimp only [act]
    cases h.fetches f with
    | none => exact hc
    | some fetch =>
      dsimp only
      split
      · exact hc.setStatus f _
      · exact hc
  | settle f =>
    dsimp only [act]
    cases h.fetches f with
    | none => exact hc
    | some fetch =>
      dsimp only
      split
      · refine Inv.setStatus ?_ f _
        unfold Handler.settle
        split
        · exact hc.inFlight _
        · exact hc
      · exact hc
  | resume c =>
    dsimp only [act]
    cases h.calls c with
    | none => exact hc
    | some call =>
      dsimp only
      split
      · exact hc.turn c _
      · exact hc.finish c
      · exact hc

end Steps

/-- Along every run whose kept answers find their views still held, every slice that
is filled from a buffer holds the rows of its view. -/
theorem fills_exact (columns : Option ℤ → Option ℤ → Row → Row) (events : List (Event Row))
    (hfresh : Along (step columns) Fresh Handler.new events) :
    Everywhere (step columns) (Exact columns) Handler.new events := by
  have hstep : ∀ (h : Handler Row) (e : Event Row), Inv columns h → Fresh h e →
      Inv columns (step columns h e) := fun _ e hi hok => inv_step hi e hok
  have hexact : ∀ h : Handler Row, Inv columns h → Exact columns h := fun _ hi => hi.exact_fill
  exact everywhere_of_inv hstep hexact inv_new hfresh

/-- The first screen, all columns. -/
def firstScreen : Viewport := ⟨some 0, some 2, none, none⟩

/-- A view is read, and its buffer serves the first screen. -/
def scrolled : List (Event ℕ) :=
  [.create "v" [10, 11, 12], .get "v" firstScreen, .land 0 false, .settle 0, .resume 0]

theorem fills_exact_scrolled :
    Everywhere (step fun _ _ row => row) (Exact fun _ _ row => row) Handler.new scrolled := by
  refine fills_exact _ scrolled ⟨?_, ?_, ?_, ?_, ?_, trivial⟩
  · rintro f fetch rows ⟨⟩
  · rintro f fetch rows ⟨⟩
  · rintro f fetch rows ⟨⟩ ⟨⟩ - ⟨⟩
    rfl
  · rintro f fetch rows ⟨⟩
  · rintro f fetch rows ⟨⟩

/-- The view is deleted and made again with other rows while a fetch is under way: a
read of the new view is served the old rows. -/
theorem fills_stale :
    ¬ ∀ events : List (Event ℕ),
      Everywhere (step fun _ _ row => row) (Exact fun _ _ row => row) Handler.new events := by
  intro h
  have hlast := (h [.create "v" [10, 11, 12], .get "v" firstScreen, .delete "v",
    .create "v" [20, 21, 22], .land 0 false, .get "v" firstScreen]).last
  obtain ⟨rows, hrows, hfill⟩ := hlast ⟨"v", 0, 2, none, none, [10, 11]⟩ (by decide)
  obtain rfl : [20, 21, 22] = rows := Option.some.inj hrows
  revert hfill
  decide

end Symm.Workbench.ScrollBuffer
