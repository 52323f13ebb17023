import GemianLeds.Program.TwoThreads
import GemianLeds.Interaction.Views
import GemianLeds.System.Requested

/-! Two updates at once mix their words on the chip, but not the light state: what clients
decide is the daemon thread's, what connman decides is the watcher's, and an update changes
neither. So the next operation that reprograms the chip, when it runs alone, repairs it. -/
namespace GemianLeds
open Interaction

section Update
variable {ν : Type} {view : LightState → ν}

/-- A part of the light state in which the counter has no share. -/
def Uncounted (view : LightState → ν) : Prop := ∀ s pc, view (s.at pc) = view s

theorem keeps_writeAW9120 (addr data : UInt32) : (writeAW9120 addr data).Keeps view :=
  Program.keeps_emit _

theorem keeps_setup : (setupAW9120 : LightM Unit).Keeps view := by
  have hget (led : ℕ) : (maxLED led).Keeps view := Program.keeps_get.bind fun _ => trivial
  unfold setupAW9120
  repeat' first
    | exact hget _
    | exact keeps_writeAW9120 _ _
    | refine Program.Keeps.bind ?_ fun _ => ?_

variable (hview : Uncounted view)
include hview

theorem keeps_writeSramProg (data : UInt32) : (writeSramProgAW9120 data).Keeps view := by
  apply Program.Keeps.bind
  · exact (keeps_writeAW9120 WDATA data).when _
  · exact fun _ => Program.keeps_modify fun s => hview s (s.programCounter + 1)

theorem keeps_writeStatus : writeStatus.Keeps view := by
  have hword := keeps_writeSramProg hview
  have hclass (on : Bool) : (writeClassLEDRed on).Keeps view ∧ (writeClassLEDGreen on).Keeps view :=
    ⟨Program.keeps_emit _, Program.keeps_emit _⟩
  unfold writeStatus
  repeat' first
    | exact hword _
    | exact (hclass _).1
    | exact (hclass _).2
    | apply Program.Keeps.when
    | apply Program.Keeps.cond
    | refine Program.Keeps.bind ?_ fun _ => ?_

theorem keeps_writeStatusTail : writeStatusTail.Keeps view := by
  have hword := keeps_writeSramProg hview
  unfold writeStatusTail
  repeat' first
    | exact hword _
    | apply Program.Keeps.when
    | apply Program.Keeps.cond
    | refine Program.Keeps.bind ?_ fun _ => ?_

theorem keeps_writeSteps (steps : List BlockAnimStep) (delaySet : Bool) :
    (writeSteps steps delaySet).Keeps view := by
  have hword := keeps_writeSramProg hview
  induction steps generalizing delaySet with
  | nil => trivial
  | cons step rest ih =>
    unfold writeSteps
    cases step.type with
    | delay => exact (hword _).bind fun _ => ih true
    | setPWM | fadeIn | fadeOut => exact (hword _).bind fun _ => ih delaySet
    | max | unnamed n h => exact ih delaySet

/-- An update changes nothing but the counter, whatever happens during it. -/
theorem keeps_update : update.Keeps view := by
  have hword := keeps_writeSramProg hview
  have hreg (addr data : UInt32) : (writeAW9120 addr data).Keeps view := keeps_writeAW9120 addr data
  have hreset : resetSramLoadAddrAW9120.Keeps view :=
    (hreg _ _).bind fun _ => Program.keeps_modify fun s => hview s 0
  unfold update
  repeat' first
    | exact hword _
    | exact hreg _ _
    | exact hreset
    | exact keeps_setup
    | exact keeps_writeStatus hview
    | exact keeps_writeSteps hview _ _
    | exact Program.keeps_get
    | exact (keeps_writeStatusTail hview).when _
    | exact (hreg _ _).bind fun _ => hreg _ _
    | refine Program.Keeps.bind ?_ fun _ => ?_

/-- A handler of one flag. -/
theorem keeps_setAndUpdate {set : LightState → LightState} (hset : ∀ s, view (set s) = view s) :
    (setAndUpdate set).Keeps view :=
  (Program.keeps_modify hset).bind fun _ => keeps_update hview

theorem brings_setAndUpdate {set : LightState → LightState} (g : ν → ν)
    (hset : ∀ s, view (set s) = g (view s)) (part : ν) :
    (setAndUpdate set).Brings view part (g part) :=
  (Program.brings_modify g hset part).bind fun _ => (keeps_update hview).brings _

end Update

theorem requested_uncounted : Uncounted LightState.requested := fun _ _ => rfl

theorem connectivity_uncounted : Uncounted connectivityOf := fun _ _ => rfl

section Requested

theorem brings_requested {set : LightState → LightState} (g : Requested → Requested)
    (hset : ∀ s, (set s).requested = g s.requested) (r : Requested) :
    (Program.modify set : LightM Unit).Brings LightState.requested r (g r) :=
  Program.brings_modify g hset r

theorem brings_update (r : Requested) : update.Brings LightState.requested r r :=
  (keeps_update requested_uncounted).brings r

/-- The level, the cleared list, the one step of a lit torch, then two updates. -/
theorem brings_torch (on : Bool) (r : Requested) :
    (handleTorch on).Brings LightState.requested r (r.perform (.torch on)) := by
  let level (r : Requested) : Requested :=
    { r with powerLevels := bif on then POWER_LEVEL_20b111s else POWER_LEVEL_20b001s }
  let clear (r : Requested) : Requested := { r with steps := [] }
  have hlevel (s : LightState) : LightState.requested
      { s with powerLevels := if on then POWER_LEVEL_20b111s else POWER_LEVEL_20b001s } =
        level s.requested := by
    cases on <;> rfl
  apply (brings_requested level hlevel r).bind
  intro _
  apply (brings_requested clear (fun _ => rfl) (level r)).bind
  intro _
  apply Program.Brings.bind
  · show (Program.when _ _ : LightM Unit).Brings _ _ (r.perform (.torch on))
    apply Program.Brings.when
    · rintro rfl
      exact brings_requested (fun r => { r with steps := r.steps ++ [torchStep] })
        (fun _ => rfl) (clear (level r))
    · rintro rfl
      rfl
  · exact fun _ => (brings_update _).bind fun _ => brings_update _

/-- What an action of the daemon asks for it gets, whatever the watcher does meanwhile. -/
theorem brings_action (action : DaemonAction) (r : Requested) :
    action.code.Brings LightState.requested r (r.perform action) := by
  cases action with
  | capsLock state =>
    exact brings_setAndUpdate requested_uncounted (fun r => { r with capsLock := state })
      (fun _ => rfl) r
  | setBlockRGB step =>
    exact brings_requested (fun r => { r with steps := r.steps ++ [step] }) (fun _ => rfl) r
  | clearBlock => exact brings_requested (fun r => { r with steps := [] }) (fun _ => rfl) r
  | pushBlock => exact brings_update r
  | torch on => exact brings_torch on r
  | call earpiece leftUp =>
    apply (brings_requested (fun r => { r with callEarpiece := earpiece }) (fun _ => rfl) r).bind
    intro _
    apply (brings_requested (fun r => { r with callLeftUp := leftUp }) (fun _ => rfl) _).bind
    exact fun _ => brings_update _

/-- A call of the watcher is no request. -/
theorem call_keeps_requested (call : WatcherCall) :
    call.code.Keeps LightState.requested := by
  cases call <;> exact keeps_setAndUpdate requested_uncounted fun _ => rfl

end Requested

section Connectivity

theorem action_keeps_connectivity (action : DaemonAction) :
    action.code.Keeps connectivityOf := by
  have hupdate : update.Keeps connectivityOf := keeps_update connectivity_uncounted
  have hset {set : LightState → LightState}
      (hset : ∀ s, connectivityOf (set s) = connectivityOf s) :
      (Program.modify set : LightM Unit).Keeps connectivityOf := Program.keeps_modify hset
  cases action with
  | capsLock state => exact keeps_setAndUpdate connectivity_uncounted fun _ => rfl
  | setBlockRGB step => exact hset fun _ => rfl
  | clearBlock => exact hset fun _ => rfl
  | pushBlock => exact hupdate
  | torch on =>
    apply (hset fun _ => rfl).bind
    intro _
    apply (hset fun _ => rfl).bind
    intro _
    apply Program.Keeps.bind
    · apply Program.Keeps.when
      exact hset fun _ => rfl
    · exact fun _ => hupdate.bind fun _ => hupdate
  | call earpiece leftUp =>
    apply (hset fun _ => rfl).bind
    intro _
    exact (hset fun _ => rfl).bind fun _ => hupdate

/-- The flags after a call of the watcher. -/
def WatcherCall.report (connected : Technology → Bool) : WatcherCall → Technology → Bool
  | .wifi state => Function.update connected .wifi state
  | .bluetooth state => Function.update connected .bluetooth state
  | .cellular state => Function.update connected .cellular state

theorem brings_call (call : WatcherCall) (connected : Technology → Bool) :
    call.code.Brings connectivityOf connected (call.report connected) := by
  cases call
  all_goals
    apply brings_setAndUpdate connectivity_uncounted
      (fun connected => WatcherCall.report connected _)
    intro s
    funext t
    cases t <;> rfl

end Connectivity

/-- What an operation does to the fields that clients decide. -/
def Op.onRequested (r : Requested) : Op → Requested
  | .daemon action => r.perform action
  | .watcher _ => r

/-- What it does to the fields that connman decides. -/
def Op.onConnected (connected : Technology → Bool) : Op → Technology → Bool
  | .daemon _ => connected
  | .watcher call => call.report connected

theorem onRequested_ops (s : LightState) (ops : List Op) :
    (runOps s ops).requested = ops.foldl Op.onRequested s.requested := by
  induction ops generalizing s with
  | nil => rfl
  | cons op ops ih =>
    rw [runOps_cons, ih, List.foldl_cons]
    cases op with
    | daemon action =>
      rw [requested_daemon]
      rfl
    | watcher call =>
      rw [requested_watcher]
      rfl

theorem onConnected_next (op : Op) (s : LightState) :
    connectivityOf (op.next s) = op.onConnected (connectivityOf s) := by
  obtain ⟨pc, hnext⟩ := op.next_at s
  rw [hnext, connectivity_uncounted]
  cases op with
  | daemon action => cases action <;> rfl
  | watcher call =>
    funext t
    cases call <;> cases t <;> rfl

theorem onConnected_ops (s : LightState) (ops : List Op) :
    connectivityOf (runOps s ops) = ops.foldl Op.onConnected (connectivityOf s) := by
  induction ops generalizing s with
  | nil => rfl
  | cons op ops ih => rw [runOps_cons, ih, onConnected_next, List.foldl_cons]

/-- The two parts are all of a light state but the counter. -/
theorem eq_at_of_parts {s s' : LightState} (hrequested : s.requested = s'.requested)
    (hconnected : connectivityOf s = connectivityOf s') : s = s'.at s.programCounter := by
  have hwifi := congrFun hconnected .wifi
  have hbluetooth := congrFun hconnected .bluetooth
  have hcellular := congrFun hconnected .cellular
  cases s
  cases s'
  simp only [LightState.requested, Requested.mk.injEq, connectivityOf] at *
  simp only [LightState.at, hrequested, hwifi, hbluetooth, hcellular]

theorem begunBy_subset (work : ThreadId → List Op) (c : Threads) (i : ThreadId) :
    begunBy work c i ⊆ work i := List.take_subset _ _

theorem foldl_kept {ν : Type} {f : ν → Op → ν} {ops : List Op} (part : ν)
    (h : ∀ op ∈ ops, f part op = part) : ops.foldl f part = part := by
  induction ops with
  | nil => rfl
  | cons op ops ih =>
    rw [List.foldl_cons, h op List.mem_cons_self]
    exact ih fun op' hop' => h op' (.tail op hop')

section Interleaving
variable {s : LightState} {actions : List DaemonAction} {calls : List WatcherCall} {c : Threads}

theorem mem_work {i : ThreadId} {op : Op} (h : op ∈ work actions calls i) :
    (∃ action, i = .daemon ∧ op = .daemon action) ∨ ∃ call, i = .watcher ∧ op = .watcher call := by
  cases i with
  | daemon =>
    obtain ⟨action, -, rfl⟩ := List.mem_map.mp h
    exact .inl ⟨action, rfl, rfl⟩
  | watcher =>
    obtain ⟨call, -, rfl⟩ := List.mem_map.mp h
    exact .inr ⟨call, rfl, rfl⟩

/-- However the threads take turns, what clients decide is what the actions begun make it. -/
theorem interleaved_requested (h : Reachable Op.code (.start s (work actions calls)) c)
    (hc : (c.threads .daemon).current = none) :
    c.shared.requested =
      (begunBy (work actions calls) c .daemon).foldl Op.onRequested s.requested := by
  have hbrings (op : Op) (hop : op ∈ work actions calls .daemon) (r : Requested) :
      op.code.Brings LightState.requested r (op.onRequested r) := by
    obtain ⟨action, -, rfl⟩ | ⟨call, hi, -⟩ := mem_work hop
    · exact brings_action action r
    · cases hi
  have hkeeps (j : ThreadId) (hj : j ≠ .daemon) (op : Op) (hop : op ∈ work actions calls j) :
      op.code.Keeps LightState.requested := by
    obtain ⟨action, hi, -⟩ | ⟨call, -, rfl⟩ := mem_work hop
    · exact absurd hi hj
    · exact call_keeps_requested call
  obtain ⟨begun, hbegun, hpart⟩ :=
    h.part LightState.requested Op.onRequested hbrings hkeeps hc
  rw [begunBy_eq hbegun]
  exact hpart

/-- And what connman decides is what the calls begun make it. -/
theorem interleaved_connected (h : Reachable Op.code (.start s (work actions calls)) c)
    (hc : (c.threads .watcher).current = none) :
    connectivityOf c.shared =
      (begunBy (work actions calls) c .watcher).foldl Op.onConnected (connectivityOf s) := by
  have hbrings (op : Op) (hop : op ∈ work actions calls .watcher)
      (connected : Technology → Bool) :
      op.code.Brings connectivityOf connected (op.onConnected connected) := by
    obtain ⟨action, hi, -⟩ | ⟨call, -, rfl⟩ := mem_work hop
    · cases hi
    · exact brings_call call connected
  have hkeeps (j : ThreadId) (hj : j ≠ .watcher) (op : Op) (hop : op ∈ work actions calls j) :
      op.code.Keeps connectivityOf := by
    obtain ⟨action, -, rfl⟩ | ⟨call, hi, -⟩ := mem_work hop
    · exact action_keeps_connectivity action
    · exact absurd hi hj
  obtain ⟨begun, hbegun, hpart⟩ :=
    h.part connectivityOf Op.onConnected hbrings hkeeps hc
  rw [begunBy_eq hbegun]
  exact hpart

/-- The light state that the operations begun leave when they run one after the other. -/
def serialState (s : LightState) (work : ThreadId → List Op) (c : Threads) : LightState :=
  runOps s (begunBy work c .daemon ++ begunBy work c .watcher)

/-- Neither thread undoes what the other has stored. -/
theorem interleaved_state (h : Reachable Op.code (.start s (work actions calls)) c)
    (hc : c.Between) :
    c.shared = (serialState s (work actions calls) c).at c.shared.programCounter := by
  have hdaemon : ∀ op ∈ begunBy (work actions calls) c .daemon, ∀ connected,
      op.onConnected connected = connected := by
    intro op hop connected
    obtain ⟨action, -, rfl⟩ | ⟨call, hi, -⟩ := mem_work (begunBy_subset _ c _ hop)
    · rfl
    · cases hi
  have hwatcher : ∀ op ∈ begunBy (work actions calls) c .watcher, ∀ r,
      op.onRequested r = r := by
    intro op hop r
    obtain ⟨action, hi, -⟩ | ⟨call, -, rfl⟩ := mem_work (begunBy_subset _ c _ hop)
    · cases hi
    · rfl
  apply eq_at_of_parts
  · rw [interleaved_requested h (hc .daemon), serialState, onRequested_ops, List.foldl_append,
      foldl_kept _ fun op hop => hwatcher op hop _]
  · rw [interleaved_connected h (hc .watcher), serialState, onConnected_ops, List.foldl_append,
      foldl_kept (connectivityOf s) fun op hop => hdaemon op hop _]

/-- An update depends on no counter. -/
theorem next_at_pc {op : Op} (hop : op.callsUpdate) (s : LightState) (pc : UInt32) :
    updateWrites (op.next (s.at pc)) = updateWrites (op.next s) := by
  have hset (s : LightState) : updateWrites (op.next s) = updateWrites (op.set s) := by
    simp [Op.next, hop]
  have hat : ∃ pc', op.set (s.at pc) = (op.set s).at pc' := by
    refine ⟨pc, ?_⟩
    rcases op with (_ | _ | _ | _ | _ | _) | (_ | _ | _) <;> rfl
  obtain ⟨pc', hat⟩ := hat
  rw [hset, hset, hat]
  rfl

/-- In every interleaving of the two threads' accesses, whenever both are between operations,
the light state is, up to the counter, the one that the operations begun leave one after the
other; so whatever words have been mixed on the chip, the next operation that reprograms it,
run alone, leaves it as after a serial run. -/
theorem interleaving_repaired (b : Board) (s : LightState) (actions : List DaemonAction)
    (calls : List WatcherCall) (c : Threads)
    (h : Reachable Op.code (.start s (work actions calls)) c) (hc : c.Between) :
    c.shared = (serialState s (work actions calls) c).at c.shared.programCounter ∧
      ∀ op : Op, op.callsUpdate → ∃ b' : Board,
        b.writes (c.log ++ (op.code.run c.shared).output) =
          b'.writes
            (update.run (op.code.run (serialState s (work actions calls) c)).state).output := by
  simp only [Op.code_run, update_run]
  have hstate := interleaved_state h hc
  refine ⟨hstate, fun op hop => ?_⟩
  obtain ⟨ws, hws⟩ := Op.writes_eq hop c.shared
  refine ⟨b.writes (c.log ++ ws), ?_⟩
  rw [hws, ← List.append_assoc, Board.writes_append, hstate, next_at_pc hop]

/-- Both threads at the same point of their updates: a word reaches the chip twice, and the
update after that puts it right. -/
theorem interleaving_repaired_mixed :
    ∃ c : Threads, (Board.blank.writes c.log).sram 1 = 0x9f03 ∧
      c.shared.connectivityWifi = true ∧
      ∃ b' : Board,
        Board.blank.writes (c.log ++ ((Op.daemon .pushBlock).code.run c.shared).output) =
          b'.writes (update.run { LightState.new 0 with connectivityWifi := true }).output := by
  obtain ⟨c, hreachable, hidle, hfirst⟩ := push_beside_wifi
  obtain ⟨hstate, hrepair⟩ := interleaving_repaired .blank (.new 0) [.pushBlock] [.wifi true] c
    hreachable hidle.between
  have hserial : serialState (.new 0) (work [.pushBlock] [.wifi true]) c =
      runOps (.new 0) [.daemon .pushBlock, .watcher (.wifi true)] := by
    simp [serialState, begunBy, hidle .daemon, hidle .watcher, work]
  refine ⟨c, hfirst, ?_, ?_⟩
  · rw [hstate, hserial]
    rfl
  · have hpush := hrepair (.daemon .pushBlock) rfl
    rw [hserial] at hpush
    simp only [Op.code_run, update_run] at hpush ⊢
    exact hpush

end Interleaving

end GemianLeds
