import Symm.Network.Client

/-!
# The delay before a redial (`network/websocket.go`)

`ensureReady` waits for the larger of two backoffs. `backoff` grows with the dials
that fail, and a dial that succeeds resets it. `hookBackoff` is there for the
reconnect hook: it grows with the hooks that fail, and a hook that succeeds clears
it. `SoftDown` grows it as well, so a lost connection counts like a failed hook, and
without a hook nothing clears it.

- `growths`, `grown`: how often `hookBackoff` has grown, and what it is then;
- `Paced`: the invariant, which says both backoffs in terms of the record;
- `redial_waits_second`: when the first redial after a connection waits one second.

The two backoffs are read off the record that `Network.Client` keeps: the one is reset
by a dial that succeeds, the other by a hook that does, and each growth leaves an entry.
`growths` counts back to the last of these, and `Paced` says that the fields are what
the count gives. Every call keeps it, whatever its hooks call, by the induction on calls
that the model of the client comes with (`Call.paces`).

With one growth the delay is still a second, since the first growth leads to one second and
the larger backoff is taken; with two it is not. So the delay of a first redial says how
often the other backoff has grown by then, and the theorem is an equivalence.
-/

namespace Symm.Network

/-- How often a connection was given up or a hook failed since a hook last returned
nil. -/
def growths : List Entry → ℕ
  | [] => 0
  | .returned _ _ :: _ => 0
  | .lost :: older => growths older + 1
  | .failed _ :: older => growths older + 1
  | _ :: older => growths older

/-- `hookBackoff` after so many growths. -/
def grown : ℕ → ℕ
  | 0 => 0
  | count + 1 => min (max (2 * grown count) second) (30 * second)

/-- Nothing has waited for a redial since the last dial that succeeded. -/
def Unwaited : List Entry → Prop
  | [] => True
  | .dialed _ _ :: _ => True
  | .waited _ :: _ => False
  | _ :: older => Unwaited older

/-- The last connection of the record is cleared, and no redial has waited since it
was dialed. -/
def FirstRedial (older : List Entry) : Prop :=
  ∃ since conn hook before, older = since ++ .dialed conn hook :: before ∧
    (∀ entry ∈ since, (∀ time, entry ≠ .waited time) ∧ ∀ conn hook, entry ≠ .dialed conn hook) ∧
    Cleared older conn

/-- The delay before a redial, for these backoffs. -/
def delay (backoff hookBackoff : ℕ) : ℕ :=
  min (max (max backoff hookBackoff) second) (30 * second)

/-- Every wait of the record was for the larger backoff of its time. -/
def Timed : List Entry → Prop
  | [] => True
  | .waited time :: older =>
    (∃ backoff, time = delay backoff (grown (growths older)) ∧
      (Unwaited older → backoff = second)) ∧ Timed older
  | _ :: older => Timed older

/-- The backoffs are what the record says of them. -/
structure Paced (w : World) : Prop where
  timed : Timed w.log
  hook : w.client.hookBackoff = grown (growths w.log)
  dial : Unwaited w.log → w.client.backoff = second

/-- Code that keeps the backoffs true to the record. -/
def Paces (run : Run) : Prop := ∀ w, Paced w → Paced (run w).1

/-! ## Delays -/

/-- No delay is below a second. -/
theorem delay_ge (backoff hookBackoff : ℕ) : second ≤ delay backoff hookBackoff := by
  unfold delay second
  omega

/-- No delay is above thirty seconds. -/
theorem delay_le (backoff hookBackoff : ℕ) : delay backoff hookBackoff ≤ 30 * second := by
  unfold delay second
  omega

/-- From the second growth on the backoff is over one second. -/
theorem grown_gt (count : ℕ) : second < grown (count + 2) := by
  have hfirst : second ≤ grown (count + 1) := by
    unfold grown second
    omega
  unfold grown
  unfold second at *
  omega

/-- Behind a good dial one growth is not noticed, and the second one is. -/
theorem delay_grown (count : ℕ) : delay second (grown count) = second ↔ count ≤ 1 := by
  rcases count with _ | _ | count
  · decide +kernel
  · decide +kernel
  · have hgrown := grown_gt count
    have hne : delay second (grown (count + 2)) ≠ second := by
      unfold delay
      unfold second at *
      omega
    exact iff_of_false hne (by omega)

/-- Each wait of a timed log was as long as the log before it says. -/
theorem Timed.of_append {newer older : List Entry} {time : ℕ}
    (h : Timed (newer ++ .waited time :: older)) :
    ∃ backoff, time = delay backoff (grown (growths older)) ∧
      (Unwaited older → backoff = second) := by
  induction newer with
  | nil => exact h.1
  | cons entry newer ih =>
    cases entry with
    | waited time => exact ih h.2
    | _ => exact ih h

/-- Before the first redial nothing was waited for. -/
theorem FirstRedial.unwaited {older : List Entry} (h : FirstRedial older) : Unwaited older := by
  obtain ⟨since, conn, hook, before, rfl, hsince, -⟩ := h
  induction since with
  | nil => trivial
  | cons entry since ih =>
    have hrest : Unwaited (since ++ .dialed conn hook :: before) :=
      ih fun entry hmem => hsince entry (List.mem_cons_of_mem _ hmem)
    cases entry with
    | waited time => exact absurd rfl ((hsince _ List.mem_cons_self).1 time)
    | dialed _ _ => trivial
    | _ => exact hrest

/-! ## Steps -/

section Steps

variable {transition : Status → Status → Status} {w : World}

theorem Paced.become (h : Paced w) (target : Status) : Paced (w.become transition target) :=
  ⟨h.timed, h.hook, h.dial⟩

theorem Paced.closeConnLocked (h : Paced w) : Paced w.closeConnLocked := ⟨h.timed, h.hook, h.dial⟩

theorem Paced.toWaiting (h : Paced w) : Paced (w.toWaiting transition) := by
  unfold World.toWaiting
  split
  · exact h.become _
  · exact h.become _
  · exact h.become _
  · exact h

/-- A growth and the entry that records it. -/
theorem Paced.grow (h : Paced w) {entry : Entry}
    (hentry : entry = .lost ∨ ∃ client, entry = .failed client) :
    Paced (w.growHookBackoff.note entry) := by
  have hgrown : w.growHookBackoff.client.hookBackoff = grown (growths w.log + 1) := by
    show min (max (2 * w.client.hookBackoff) second) (30 * second) = _
    rw [h.hook]
    rfl
  rcases hentry with rfl | ⟨client, rfl⟩
  · exact ⟨h.timed, hgrown, h.dial⟩
  · exact ⟨h.timed, hgrown, h.dial⟩

/-- A soft down keeps the pace: it grows the backoff of the hook before it waits. -/
theorem softDown_paced {drop : Run} (hdrop : Paces drop) (h : Paced w) (cause : ClientError) :
    Paced (w.softDown transition cause drop).1 := by
  have hlost : Paced ((w.closeConnLocked.toWaiting transition).growHookBackoff.note .lost) :=
    h.closeConnLocked.toWaiting.grow (.inl rfl)
  unfold World.softDown
  dsimp only
  split
  · have hdropped := hdrop _ hlost
    split <;> rename_i hrun <;> rwa [hrun] at hdropped
  · exact hlost

/-- A dial that succeeds keeps the pace. -/
theorem dialLocked_ok_paced (h : Paced w) {accepted : Bool} {w' : World} {dialed : ℕ}
    (hdial : w.dialLocked transition accepted = (w', .ok dialed)) : Paced w' := by
  unfold World.dialLocked at hdial
  split at hdial
  · cases hdial
  · dsimp only at hdial
    split at hdial
    · cases hdial
      exact ⟨h.timed, h.hook, fun _ => rfl⟩
    · cases hdial

/-- A dial that fails records no dial. -/
theorem dialLocked_error_paced (h : Paced w) {accepted : Bool} {w' : World} {err : ClientError}
    (hdial : w.dialLocked transition accepted = (w', .error err)) :
    Paced w' ∧ (Unwaited w'.log ↔ Unwaited w.log) := by
  unfold World.dialLocked at hdial
  split at hdial
  · cases hdial
    exact ⟨h, Iff.rfl⟩
  · dsimp only at hdial
    split at hdial
    · cases hdial
    · cases hdial
      exact ⟨h.closeConnLocked.become _, Iff.rfl⟩

/-- The hook keeps it, whatever its body calls. -/
theorem runHook_paced {body : Run} (hbody : Paces body) (h : Paced w) (dialed : ℕ)
    (hook : Option ℕ) (ok : Bool) : Paced (w.runHook transition dialed hook body ok).1 := by
  cases hook with
  | none => exact h
  | some hook =>
    have hran := hbody { w with depth := w.depth + 1 } ⟨h.timed, h.hook, h.dial⟩
    unfold World.runHook
    dsimp only
    generalize body { w with depth := w.depth + 1 } = ran at hran ⊢
    obtain ⟨after, outcome⟩ := ran
    have hafter : Paced { after with depth := after.depth - 1 } :=
      ⟨hran.timed, hran.hook, hran.dial⟩
    split
    · exact hafter
    split
    · exact ⟨hafter.timed, rfl, hafter.dial⟩
    · exact hafter.closeConnLocked.toWaiting.grow (.inr ⟨_, rfl⟩)

/-- Opening keeps the pace. -/
theorem open_paces {hook : Run} (hhook : Paces hook) (url : String) (accepted ok : Bool) :
    Paces (World.open transition url accepted hook ok) := by
  intro w h
  have hnamed : Paced { w with client := { w.client with url := url } } :=
    ⟨h.timed, h.hook, h.dial⟩
  unfold World.open
  dsimp only
  split
  · rename_i hdial
    exact (dialLocked_error_paced hnamed hdial).1
  · rename_i hdial
    exact runHook_paced hhook (dialLocked_ok_paced hnamed hdial) _ _ ok

/-- A wait is for the larger backoff. After it `backoff` is free to grow until a
dial succeeds. -/
theorem ensureReady_paces {hook : Run} (hhook : Paces hook) (waits : Waits) (accepted ok : Bool) :
    Paces (World.ensureReady transition waits accepted hook ok) := by
  intro w h
  have hwaited : Paced (w.note (.waited (delay w.client.backoff w.client.hookBackoff))) := by
    refine ⟨⟨⟨w.client.backoff, ?_, h.dial⟩, h.timed⟩, h.hook, False.elim⟩
    rw [h.hook]
  unfold World.ensureReady
  split
  · exact h
  split
  · exact h
  split
  · exact h
  dsimp only
  split
  · exact hwaited
  split
  · exact hwaited
  split
  · rename_i after err hdial
    obtain ⟨herror, hunwaited⟩ := dialLocked_error_paced hwaited hdial
    exact ⟨herror.timed, herror.hook, fun hlog => (hunwaited.mp hlog).elim⟩
  · rename_i hdial
    exact runHook_paced hhook (dialLocked_ok_paced hwaited hdial) _ _ ok

/-- Receiving keeps the pace. -/
theorem receive_paces {hook drop : Run} (hhook : Paces hook) (hdrop : Paces drop) (waits : Waits)
    (accepted ok : Bool) (socket : SocketRead) :
    Paces (World.receive transition waits accepted hook ok socket drop) := by
  intro w h
  have hready : Paced (w.ensureReady transition waits accepted hook ok).1 :=
    ensureReady_paces hhook waits accepted ok w h
  unfold World.receive
  split
  · rename_i after hensured
    rw [hensured] at hready
    split
    · exact softDown_paced hdrop hready _
    · rename_i conn hconn
      have htouched : Paced (after.note (.touched conn after.depth)) :=
        ⟨hready.timed, hready.hook, hready.dial⟩
      cases socket with
      | deadline => exact softDown_paced hdrop htouched _
      | failed => exact softDown_paced hdrop htouched _
      | panicked => exact htouched
      | message => exact htouched
  · exact hready

/-- Reading keeps it, with its recovery. -/
theorem read_paces {hook drop recovery : Run} (hhook : Paces hook) (hdrop : Paces drop)
    (hrecovery : Paces recovery) (waits : Waits) (accepted ok : Bool) (socket : SocketRead) :
    Paces (World.read transition waits accepted hook ok socket drop recovery) := by
  intro w h
  have hreceived : Paced (w.receive transition waits accepted hook ok socket drop).1 :=
    receive_paces hhook hdrop waits accepted ok socket w h
  unfold World.read
  split
  · rename_i after hpanic
    rw [hpanic] at hreceived
    exact softDown_paced hrecovery hreceived _
  · exact hreceived

/-- Writing keeps the pace. -/
theorem write_paces {hook drop : Run} (hhook : Paces hook) (hdrop : Paces drop) (waits : Waits)
    (accepted ok sent : Bool) :
    Paces (World.write transition waits accepted hook ok sent drop) := by
  intro w h
  have hready : Paced (w.ensureReady transition waits accepted hook ok).1 :=
    ensureReady_paces hhook waits accepted ok w h
  unfold World.write
  split
  · rename_i after hensured
    rw [hensured] at hready
    split
    · exact softDown_paced hdrop hready _
    · rename_i conn hconn
      have htouched : Paced (after.note (.touched conn after.depth)) :=
        ⟨hready.timed, hready.hook, hready.dial⟩
      dsimp only
      split
      · exact htouched
      · exact softDown_paced hdrop htouched _
  · exact hready

/-- Pinging keeps the pace. -/
theorem writePing_paces {drop : Run} (hdrop : Paces drop) (sent : Bool) :
    Paces (World.writePing transition sent drop) := by
  intro w h
  unfold World.writePing
  split
  · exact h
  split
  · exact h
  · exact softDown_paced hdrop h _

end Steps

/-! ## Whole runs -/

mutual

/-- Every call keeps the backoffs true to the record, by induction on the calls of
its hooks. -/
theorem Call.paces {transition : Status → Status → Status} :
    ∀ call : Call, Paces (call.run transition)
  | .open url accepted hook ok => open_paces (runCalls_paces hook) url accepted ok
  | .read waits accepted hook ok socket drop recovery =>
    read_paces (runCalls_paces hook) (runCalls_paces drop) (runCalls_paces recovery) waits accepted
      ok socket
  | .write waits accepted hook ok sent drop =>
    write_paces (runCalls_paces hook) (runCalls_paces drop) waits accepted ok sent
  | .softDown cause drop => fun _ h => softDown_paced (runCalls_paces drop) h cause
  | .ping sent drop => writePing_paces (runCalls_paces drop) sent
  | .onReconnect _ => fun _ h => ⟨h.timed, h.hook, h.dial⟩
  | .onDisconnect _ => fun _ h => ⟨h.timed, h.hook, h.dial⟩
  | .panic => fun _ h => h

/-- All sequences of calls keep it, hooks within hooks included. -/
theorem runCalls_paces {transition : Status → Status → Status} :
    ∀ calls : List Call, Paces (runCalls transition calls)
  | [] => fun _ h => h
  | call :: rest => by
    intro w h
    have hcall : Paced (call.run transition w).1 := Call.paces call w h
    unfold runCalls
    split
    · rename_i hrun
      rwa [hrun] at hcall
    · rename_i after outcome hnopanic hrun
      rw [hrun] at hcall
      exact runCalls_paces rest after hcall

end

/-- In every run of a new client every delay before a redial is between 1 and 30
seconds. The first redial after a connection that was dialed and resubscribed waits
exactly 1 second if and only if, since a hook last returned nil, connections were
given up and hooks failed at most once together. -/
theorem redial_waits_second (transition : Status → Status → Status) (initial : Status)
    (calls : List Call) :
    (∀ newer older time,
      (runCalls transition calls (World.new initial)).1.log = newer ++ .waited time :: older →
      second ≤ time ∧ time ≤ 30 * second) ∧
    ∀ newer older time,
      (runCalls transition calls (World.new initial)).1.log = newer ++ .waited time :: older →
      FirstRedial older → (time = second ↔ growths older ≤ 1) := by
  have hpaced : Paced (runCalls transition calls (World.new initial)).1 :=
    runCalls_paces calls _ ⟨trivial, rfl, fun _ => rfl⟩
  have hwait : ∀ newer older time,
      (runCalls transition calls (World.new initial)).1.log = newer ++ .waited time :: older →
      ∃ backoff, time = delay backoff (grown (growths older)) ∧
        (Unwaited older → backoff = second) := by
    intro newer older time hlog
    have htimed := hpaced.timed
    rw [hlog] at htimed
    exact htimed.of_append
  constructor
  · intro newer older time hlog
    obtain ⟨backoff, rfl, -⟩ := hwait newer older time hlog
    exact ⟨delay_ge _ _, delay_le _ _⟩
  · intro newer older time hlog hfirst
    obtain ⟨backoff, rfl, hbackoff⟩ := hwait newer older time hlog
    rw [hbackoff hfirst.unwaited]
    exact delay_grown _

/-- The connection is lost, the redial is resubscribed, and the next connection is
lost. -/
def resubscribedCalls : List Call := [
  .onReconnect (some 7),
  .open "wss" true [] true,
  .softDown .socket [],
  .read ⟨false, false⟩ true [] true .failed [] [],
  .read ⟨false, false⟩ true [] true .message [] []]

theorem redial_waits_second_resubscribed :
    ∃ newer older, (runCalls (fun _ target => target) resubscribedCalls
        (World.new .waiting)).1.log = newer ++ .waited second :: older ∧
      FirstRedial older ∧ growths older ≤ 1 := by
  have hlog : (runCalls (fun _ target => target) resubscribedCalls (World.new .waiting)).1.log =
      [.touched 2 0, .returned 7 2, .became .ready, .dialed 2 (some 7)] ++ .waited second ::
      ([.lost, .became .waiting, .touched 1 0, .returned 7 1, .became .ready] ++
        .dialed 1 (some 7) :: [.waited second, .lost, .became .waiting, .returned 7 0,
          .became .ready, .dialed 0 (some 7)]) := by
    decide +kernel
  have hfirst : FirstRedial ([.lost, .became .waiting, .touched 1 0, .returned 7 1,
      .became .ready] ++ .dialed 1 (some 7) :: [.waited second, .lost, .became .waiting,
        .returned 7 0, .became .ready, .dialed 0 (some 7)]) :=
    ⟨_, 1, some 7, _, rfl, by simp, ⟨some 7, by simp⟩, by simp⟩
  exact ⟨_, _, hlog, hfirst,
    ((redial_waits_second (fun _ target => target) .waiting resubscribedCalls).2 _ _ _ hlog
      hfirst).mp rfl⟩

/-- Without a hook the second connection is dialed, lost once, and redialed after two
seconds. -/
def unhookedCalls : List Call := [
  .open "wss" true [] true,
  .softDown .socket [],
  .read ⟨false, false⟩ true [] true .message [] [],
  .softDown .socket [],
  .read ⟨false, false⟩ true [] true .message [] []]

theorem second_loss_waits_longer :
    ¬ ∀ newer older time, (runCalls (fun _ target => target) unhookedCalls
        (World.new .waiting)).1.log = newer ++ .waited time :: older →
      FirstRedial older → time = second := by
  intro h
  have hlog : (runCalls (fun _ target => target) unhookedCalls (World.new .waiting)).1.log =
      [.touched 2 0, .became .ready, .dialed 2 none] ++ .waited (2 * second) ::
      ([.lost, .became .waiting, .touched 1 0, .became .ready] ++
        .dialed 1 none :: [.waited second, .lost, .became .waiting, .became .ready,
          .dialed 0 none]) := by
    decide +kernel
  have hfirst : FirstRedial ([.lost, .became .waiting, .touched 1 0, .became .ready] ++
      .dialed 1 none :: [.waited second, .lost, .became .waiting, .became .ready,
        .dialed 0 none]) :=
    ⟨_, 1, none, _, rfl, by simp, ⟨none, by simp⟩, by simp⟩
  exact absurd (h _ _ _ hlog hfirst) (by decide +kernel)

end Symm.Network
