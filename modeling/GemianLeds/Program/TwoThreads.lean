import GemianLeds.Interaction.Merge
import GemianLeds.Interaction.Threads
import GemianLeds.AW9120.Loading
import GemianLeds.AW9120.Words

/-! The daemon's thread and the connection watcher's, both inside `update` at the same chip.
Nothing keeps one from starting while the other is under way; runs in which it does not happen
load whole programs, in hold mode. -/
namespace GemianLeds
open Interaction Sequencer

inductive ThreadId where
  | daemon
  | watcher
  deriving DecidableEq

/-- The daemon performs queued actions, the watcher calls the light state directly. -/
def work (actions : List DaemonAction) (calls : List WatcherCall) : ThreadId → List Op
  | .daemon => actions.map .daemon
  | .watcher => calls.map .watcher

abbrev Threads := Config ThreadId LightState Write Op

/-- The operations that a thread has begun. -/
def begunBy (work : ThreadId → List Op) (c : Threads) (i : ThreadId) : List Op :=
  (work i).take ((work i).length - (c.threads i).pending.length)

theorem begunBy_eq {work : ThreadId → List Op} {c : Threads} {i : ThreadId} {begun : List Op}
    (h : begun ++ (c.threads i).pending = work i) : begunBy work c i = begun := by
  unfold begunBy
  rw [← h, List.length_append, Nat.add_sub_cancel]
  exact List.take_left

/-- Every write to `WDATA` finds the chip held for loading. -/
def HoldSafe (b : Board) : List Write → Prop
  | [] => True
  | w :: ws => (∀ data, w = .reg WDATA data → b.reg RMR = 0 ∧ b.reg PMR = 0) ∧
      HoldSafe (b.write w) ws

theorem holdSafe_append (b : Board) (ws ws' : List Write) :
    HoldSafe b (ws ++ ws') ↔ HoldSafe b ws ∧ HoldSafe (b.writes ws) ws' := by
  induction ws generalizing b with
  | nil => simp [HoldSafe]
  | cons w ws ih => simp only [List.cons_append, HoldSafe, ih, Board.writes_cons, and_assoc]

theorem holdSafe_of_no_wdata {ws : List Write} (h : ∀ data, .reg WDATA data ∉ ws) (b : Board) :
    HoldSafe b ws := by
  induction ws generalizing b with
  | nil => trivial
  | cons w ws ih =>
    refine ⟨?_, ih (fun data hmem => h data (by simp [hmem])) _⟩
    rintro data rfl
    exact absurd (by simp) (h data)

/-- Loading words leaves the mode registers alone. -/
theorem holdSafe_render {b : Board} (h : b.reg RMR = 0 ∧ b.reg PMR = 0) (pc : UInt32)
    (es : List Emission) : HoldSafe b (render pc es) := by
  induction es generalizing b pc with
  | nil => trivial
  | cons e es ih =>
    cases e with
    | classLED led on => exact ⟨by simp, ih (b := b.write (.classLED led on)) h pc⟩
    | word w =>
      rw [render]
      split
      · refine ⟨fun _ _ => h, ih ?_ (pc + 1)⟩
        rw [Board.write_wdata_reg]
        exact h
      · exact ih h (pc + 1)

/-- `update` holds the chip before it loads. -/
theorem holdSafe_update (b : Board) (s : LightState) : HoldSafe b (updateWrites s) := by
  rw [updateWrites, holdSafe_append, holdSafe_append]
  refine ⟨holdSafe_of_no_wdata ?_ b, holdSafe_render ⟨?_, ?_⟩ 0 _, holdSafe_of_no_wdata ?_ _⟩
  · intro data
    simp [setupWrites, WDATA, GCR, IMAX1, IMAX2, IMAX3, IMAX4, IMAX5, LER1, LER2, CTRS1, CTRS2,
      PMR, RMR, WADDR]
  · rw [Board.writes_reg]
    rfl
  · rw [Board.writes_reg]
    rfl
  · intro data
    simp [runWrites, WDATA, SADDR, PMR, RMR]

theorem holdSafe_op (b : Board) (op : Op) (s : LightState) : HoldSafe b (op.writes s) := by
  rcases op with (_ | _ | _ | _ | _ | _) | (_ | _ | _)
  case daemon.setBlockRGB | daemon.clearBlock => trivial
  case daemon.torch =>
    exact (holdSafe_append b _ _).mpr ⟨holdSafe_update b _, holdSafe_update _ _⟩
  all_goals exact holdSafe_update b _

/-- The two threads' updates reach the chip one after the other: words are written in hold
mode only, and when both threads are done the SRAM holds one program of the run. -/
structure Serialised (b : Board) (c : Threads) : Prop where
  hold : HoldSafe b c.log
  image : c.Idle → c.log = [] ∨ ∃ s ∈ c.visited, HoldsProgram (b.writes c.log) s

/-- What holds of the writes made so far whenever no operation is under way. -/
structure LoadedWhole (b : Board) (log : List Write) (visited : List LightState) : Prop where
  hold : HoldSafe b log
  image : log = [] ∨ ∃ s ∈ visited, HoldsProgram (b.writes log) s

/-- Every operation preserves it when it runs alone. -/
theorem loadedWhole_operation (b : Board) :
    OperationInvariant Op.code fun _ log visited (_ : ThreadId → List Op) =>
      LoadedWhole b log visited where
  mono hsub h := ⟨h.hold, h.image.imp id fun ⟨s, hs, hp⟩ => ⟨s, hsub hs, hp⟩⟩
  operation := by
    intro s log visited _ _ op _ h _ hmem
    rw [Op.code_run] at hmem ⊢
    refine ⟨(holdSafe_append b _ _).mpr ⟨h.hold, holdSafe_op _ op s⟩, ?_⟩
    cases hop : op.callsUpdate with
    | true =>
      obtain ⟨ws, hws⟩ := Op.writes_eq hop s
      refine .inr ⟨op.next s, hmem, ?_⟩
      simp only [hws, Board.writes_append]
      exact Board.update_loaded _ _
    | false =>
      simp only [Op.writes_staging hop, List.append_nil]
      exact h.image

/-- The updates are serialised in every run in which neither thread begins an operation while
the other is inside one. -/
theorem serial_updates_serialised (b : Board) (s : LightState) (actions : List DaemonAction)
    (calls : List WatcherCall) (c : Threads)
    (h : SerialReachable Op.code (.start s (work actions calls)) c) : Serialised b c := by
  have hinv := loadedWhole_operation b
  have hstart : LoadedWhole b [] [s] := ⟨trivial, .inl rfl⟩
  constructor
  · obtain ⟨s', log, out, -, hJ, hlog, hout⟩ := h.log_eq hinv hstart
    rw [hlog, holdSafe_append]
    refine ⟨hJ.hold, ?_⟩
    rcases hout with rfl | ⟨op, rest, hrest⟩
    · trivial
    · have hop := holdSafe_op (b.writes log) op s'
      rw [Op.code_run] at hrest
      simp only at hrest
      rw [← hrest, holdSafe_append] at hop
      exact hop.1
  · intro hidle
    exact (h.between hinv hstart hidle.between).image

/-- Both threads are done. -/
def bothDone (c : Threads) : Bool :=
  (c.threads .daemon).current.isNone && (c.threads .daemon).pending.isEmpty &&
    ((c.threads .watcher).current.isNone && (c.threads .watcher).pending.isEmpty)

theorem idle_of_bothDone {c : Threads} (h : bothDone c) : c.Idle := by
  have hthread {t : Thread LightState Write Op} (hc : t.current.isNone) (hp : t.pending.isEmpty) :
      t = ⟨none, []⟩ := by
    obtain ⟨current, pending⟩ := t
    simp only [Option.isNone_iff_eq_none, List.isEmpty_iff] at hc hp
    rw [hc, hp]
  simp only [bothDone, Bool.and_eq_true] at h
  intro i
  cases i with
  | daemon => exact hthread h.1.1 h.1.2
  | watcher => exact hthread h.2.1 h.2.2

/-- The caps-lock key, and then the wifi, without overlap. -/
theorem caps_then_wifi : ∃ c : Threads,
    SerialReachable Op.code (.start (.new 0) (work [.capsLock true] [.wifi true])) c ∧ c.Idle ∧
      c.log ≠ [] := by
  have hrun : (((Config.start (.new 0) (work [.capsLock true] [.wifi true]) : Threads).follow
      Op.code (List.replicate 81 .daemon)).any fun c =>
        (c.threads .daemon).current.isNone &&
          (c.follow Op.code (List.replicate 90 .watcher)).any fun c' =>
            bothDone c' && !c'.log.isEmpty) = true := by
    decide +kernel
  obtain ⟨c, hc, hnext⟩ := (Option.any_eq_true _ _).mp hrun
  obtain ⟨hbetween, hnext⟩ := Bool.and_eq_true_iff.mp hnext
  obtain ⟨c', hc', hdone⟩ := (Option.any_eq_true _ _).mp hnext
  obtain ⟨hdone, hlog⟩ := Bool.and_eq_true_iff.mp hdone
  obtain ⟨hserial, -⟩ := SerialReachable.solo Op.code .refl (fun _ _ => rfl) hc
  have hothers : ∀ j, j ≠ ThreadId.watcher → (c.threads j).current = none := by
    intro j hj
    cases j with
    | daemon => exact Option.isNone_iff_eq_none.mp hbetween
    | watcher => exact absurd rfl hj
  refine ⟨c', (hserial.solo Op.code hothers hc').1, idle_of_bothDone hdone, ?_⟩
  intro hnil
  rw [hnil] at hlog
  cases hlog

theorem serial_updates_serialised_caps :
    ∃ c : Threads, c.Idle ∧ c.log ≠ [] ∧ Serialised .blank c := by
  obtain ⟨c, hserial, hidle, hlog⟩ := caps_then_wifi
  exact ⟨c, hidle, hlog, serial_updates_serialised .blank (.new 0) [.capsLock true] [.wifi true] c
    hserial⟩

/-- The operations begun, as whole ones in some order, and those that are left. -/
structure RunWhole (s : LightState) (work : ThreadId → List Op) (s' : LightState)
    (log : List Write) (pending : ThreadId → List Op) (begun : ThreadId → List Op)
    (ops : List Op) : Prop where
  merge : Merge (begun .daemon) (begun .watcher) ops
  state : s' = runOps s ops
  log : log = opsWrites s ops
  work : ∀ i, begun i ++ pending i = work i

theorem runWhole_operation (s : LightState) (work : ThreadId → List Op) :
    OperationInvariant Op.code fun s' log _ pending =>
      ∃ begun ops, RunWhole s work s' log pending begun ops where
  mono _ h := h
  operation := by
    rintro s' log visited pending i op rest ⟨begun, ops, h⟩ hpending -
    refine ⟨Function.update begun i (begun i ++ [op]), ops ++ [op], ?_, ?_, ?_, ?_⟩
    · cases i with
      | daemon => simpa using h.merge.append (.left .nil)
      | watcher => simpa using h.merge.append (.right .nil)
    · rw [runOps_concat, ← h.state, Op.code_run]
    · rw [opsWrites_append, ← h.state, ← h.log, opsWrites_cons, opsWrites_nil, List.append_nil,
        Op.code_run]
    · intro j
      by_cases hj : j = i
      · subst hj
        rw [Function.update_self, Function.update_self, List.append_assoc, List.singleton_append,
          ← hpending]
        exact h.work j
      · rw [Function.update_of_ne hj, Function.update_of_ne hj]
        exact h.work j

/-- Operations that do not overlap are whole ones: whenever none is under way, the light state
and all that was written are those of one order of the operations begun, which keeps the order
of each thread. -/
theorem serial_operations_whole (s : LightState) (actions : List DaemonAction)
    (calls : List WatcherCall) (c : Threads)
    (h : SerialReachable Op.code (.start s (work actions calls)) c) (hc : c.Between) :
    ∃ ops, Merge (begunBy (work actions calls) c .daemon) (begunBy (work actions calls) c .watcher)
        ops ∧
      c.shared = runOps s ops ∧ c.log = opsWrites s ops := by
  have hstart : ∃ begun ops, RunWhole s (work actions calls) s [] (work actions calls) begun ops :=
    ⟨fun _ => [], [], .nil, rfl, rfl, fun _ => rfl⟩
  obtain ⟨begun, ops, hwhole⟩ := h.between (runWhole_operation s (work actions calls)) hstart hc
  refine ⟨ops, ?_, hwhole.state, hwhole.log⟩
  rw [begunBy_eq (hwhole.work .daemon), begunBy_eq (hwhole.work .watcher)]
  exact hwhole.merge

theorem serial_operations_whole_caps :
    ∃ (c : Threads) (ops : List Op), c.log ≠ [] ∧
      Merge [.daemon (.capsLock true)] [.watcher (.wifi true)] ops ∧
      c.shared = runOps (.new 0) ops ∧ c.log = opsWrites (.new 0) ops := by
  obtain ⟨c, hserial, hidle, hlog⟩ := caps_then_wifi
  obtain ⟨ops, hmerge, hstate, hwrites⟩ := serial_operations_whole (.new 0) [.capsLock true]
    [.wifi true] c hserial hidle.between
  refine ⟨c, ops, hlog, ?_, hstate, hwrites⟩
  simpa [begunBy, hidle .daemon, hidle .watcher, work] using hmerge

/-- Both threads at the same point of their updates: the first word reaches the chip twice. -/
theorem push_beside_wifi : ∃ c : Threads,
    Reachable Op.code (.start (.new 0) (work [.pushBlock] [.wifi true])) c ∧ c.Idle ∧
      (Board.blank.writes c.log).sram 1 = 0x9f03 := by
  have hrun : (((Config.start (.new 0) (work [.pushBlock] [.wifi true]) : Threads).follow
      Op.code ((List.replicate 86 [.daemon, .watcher]).flatten ++ [.watcher])).any fun c =>
        bothDone c && (Board.blank.writes c.log).sram 1 == 0x9f03) = true := by
    decide +kernel
  obtain ⟨c, hc, hcheck⟩ := (Option.any_eq_true _ _).mp hrun
  obtain ⟨hdone, hfirst⟩ := Bool.and_eq_true_iff.mp hcheck
  exact ⟨c, .follow Op.code .refl hc, idle_of_bothDone hdone, beq_iff_eq.mp hfirst⟩

theorem interleaved_updates_mix :
    ¬ ∀ (b : Board) (s : LightState) (actions : List DaemonAction) (calls : List WatcherCall)
      (c : Threads), Reachable Op.code (.start s (work actions calls)) c → Serialised b c := by
  intro hall
  obtain ⟨c, hreachable, hidle, hfirst⟩ := push_beside_wifi
  have hserialised := hall .blank (.new 0) [.pushBlock] [.wifi true] c hreachable
  rcases hserialised.image hidle with hlog | ⟨s, -, himage⟩
  · rw [hlog] at hfirst
    exact absurd hfirst (by decide)
  · have hword : ((program s).take 256)[1]? = some (SETPWMI + CH_ALL_LEDS + 0x00) := by
      rw [program, preludeWords_eq]
      rfl
    have hsecond := himage 1 _ hword
    rw [Nat.zero_add, hfirst] at hsecond
    exact absurd hsecond (by decide)

end GemianLeds
