import Mathlib.Logic.Function.Iterate
import Mathlib.Tactic.Ring

/-! Machines that execute the words of a memory one after the other and follow branch words.
A program is a prelude, a loop body and a closing branch back to the body; its executions are
described pass by pass, whatever the memory holds behind it. -/
namespace Sequencer

universe u v

variable {W : Type u} {D : Type v}

/-- `branch` gives the target of a branch word, `effect` what a word does to the data. -/
structure Machine (W : Type u) (D : Type v) where
  branch : W → Option ℕ
  effect : W → D → D

@[ext] structure Cpu (D : Type v) where
  pc : ℕ
  data : D

/-- `ws` stands in memory from address `a` on. -/
def Loaded (mem : ℕ → W) (a : ℕ) (ws : List W) : Prop :=
  ∀ i w, ws[i]? = some w → mem (a + i) = w

theorem Loaded.head {mem : ℕ → W} {a : ℕ} {w : W} {ws : List W}
    (h : Loaded mem a (w :: ws)) : mem a = w := h 0 w rfl

theorem Loaded.tail {mem : ℕ → W} {a : ℕ} {w : W} {ws : List W}
    (h : Loaded mem a (w :: ws)) : Loaded mem (a + 1) ws := by
  intro i x hx
  have := h (i + 1) x (by simpa using hx)
  rwa [show a + (i + 1) = a + 1 + i by omega] at this

theorem Loaded.left {mem : ℕ → W} {a : ℕ} {xs ys : List W}
    (h : Loaded mem a (xs ++ ys)) : Loaded mem a xs := by
  intro i x hx
  obtain ⟨hi, -⟩ := List.getElem?_eq_some_iff.mp hx
  exact h i x (by rw [List.getElem?_append_left hi, hx])

theorem Loaded.right {mem : ℕ → W} {a : ℕ} {xs ys : List W}
    (h : Loaded mem a (xs ++ ys)) : Loaded mem (a + xs.length) ys := by
  intro i y hy
  have := h (xs.length + i) y (by rw [List.getElem?_append_right (by omega), ← hy]; congr 1; omega)
  rwa [← Nat.add_assoc] at this

theorem Loaded.congr {mem mem' : ℕ → W} {ws : List W} (h : Loaded mem 0 ws)
    (h' : Loaded mem' 0 ws) {i : ℕ} (hi : i < ws.length) : mem i = mem' i := by
  have hw := List.getElem?_eq_getElem hi
  have e := h i _ hw
  have e' := h' i _ hw
  rw [Nat.zero_add] at e e'
  rw [e, e']

/-- Reading back as many words as were loaded gives the words. -/
theorem Loaded.words {mem : ℕ → W} {a : ℕ} {ws : List W} (h : Loaded mem a ws) :
    (List.range ws.length).map (fun i => mem (a + i)) = ws := by
  apply List.ext_getElem
  · simp
  · intro i _ hi
    simpa using h i ws[i] (List.getElem?_eq_getElem hi)

namespace Machine
variable (m : Machine W D)

def step (mem : ℕ → W) (c : Cpu D) : Cpu D :=
  ⟨(m.branch (mem c.pc)).getD (c.pc + 1), m.effect (mem c.pc) c.data⟩

/-- The machine after `n` words. -/
def after (mem : ℕ → W) (n : ℕ) (c : Cpu D) : Cpu D := (m.step mem)^[n] c

/-- The word executed next after `n` words, with the data it finds. -/
def visit (mem : ℕ → W) (n : ℕ) (c : Cpu D) : W × D :=
  (mem (m.after mem n c).pc, (m.after mem n c).data)

def through (ws : List W) (d : D) : D := ws.foldl (fun d w => m.effect w d) d

/-- The words of a branch-free stretch, each with the data it finds. -/
def scan : List W → D → List (W × D)
  | [], _ => []
  | w :: ws, d => (w, d) :: scan ws (m.effect w d)

@[simp] theorem through_nil (d : D) : m.through [] d = d := rfl

@[simp] theorem through_cons (w : W) (ws : List W) (d : D) :
    m.through (w :: ws) d = m.through ws (m.effect w d) := rfl

theorem through_append (xs ys : List W) (d : D) :
    m.through (xs ++ ys) d = m.through ys (m.through xs d) := List.foldl_append ..

theorem scan_append (xs ys : List W) (d : D) :
    m.scan (xs ++ ys) d = m.scan xs d ++ m.scan ys (m.through xs d) := by
  induction xs generalizing d with
  | nil => rfl
  | cons w xs ih => simp only [List.cons_append, scan, ih, through_cons]

theorem scan_words (ws : List W) (d : D) : (m.scan ws d).map Prod.fst = ws := by
  induction ws generalizing d with
  | nil => rfl
  | cons w ws ih => simp only [scan, List.map_cons, ih]

theorem scan_getElem? (ws : List W) (d : D) (j : ℕ) :
    (m.scan ws d)[j]? = ws[j]?.map fun w => (w, m.through (ws.take j) d) := by
  induction ws generalizing d j with
  | nil => rfl
  | cons w ws ih =>
    cases j with
    | zero => rfl
    | succ j => simpa only [scan, List.getElem?_cons_succ, List.take_succ_cons, through_cons]
        using ih (m.effect w d) j

/-- What every word of a stretch preserves holds before each of them and after the last. -/
theorem scan_invariant {I : D → Prop} {ws : List W}
    (hstep : ∀ w ∈ ws, ∀ d, I d → I (m.effect w d)) {d : D} (hd : I d) :
    (∀ x ∈ m.scan ws d, I x.2) ∧ I (m.through ws d) := by
  induction ws generalizing d with
  | nil => exact ⟨by simp [scan], hd⟩
  | cons w ws ih =>
    obtain ⟨hs, ht⟩ := ih (fun x hx => hstep x (by simp [hx])) (hstep w (by simp) d hd)
    refine ⟨?_, ht⟩
    intro x hx
    rcases List.mem_cons.mp hx with rfl | hx
    · exact hd
    · exact hs x hx

/-- What the words of a branch-free stretch that satisfy `p` find. -/
def seen (p : W → Bool) (ws : List W) (d : D) : List D :=
  ((m.scan ws d).filter fun x => p x.1).map Prod.snd

theorem seen_cons (p : W → Bool) (w : W) (ws : List W) (d : D) :
    m.seen p (w :: ws) d = (bif p w then [d] else []) ++ m.seen p ws (m.effect w d) := by
  cases hw : p w <;> simp [seen, scan, hw]

theorem seen_append (p : W → Bool) (xs ys : List W) (d : D) :
    m.seen p (xs ++ ys) d = m.seen p xs d ++ m.seen p ys (m.through xs d) := by
  simp only [seen, scan_append, List.filter_append, List.map_append]

theorem seen_of_none {p : W → Bool} {ws : List W} (h : ∀ w ∈ ws, p w = false) (d : D) :
    m.seen p ws d = [] := by
  induction ws generalizing d with
  | nil => rfl
  | cons w ws ih =>
    rw [seen_cons, h w (by simp), ih fun x hx => h x (by simp [hx])]
    rfl

theorem seen_invariant {I : D → Prop} {p : W → Bool} {ws : List W}
    (hstep : ∀ w ∈ ws, ∀ d, I d → I (m.effect w d)) {d : D} (hd : I d) :
    ∀ x ∈ m.seen p ws d, I x := by
  intro x hx
  obtain ⟨y, hy, rfl⟩ := List.mem_map.mp hx
  exact (m.scan_invariant hstep hd).1 y (List.mem_filter.mp hy).1

variable {m}

theorem after_succ (mem : ℕ → W) (n : ℕ) (c : Cpu D) :
    m.after mem (n + 1) c = m.step mem (m.after mem n c) := Function.iterate_succ_apply' ..

theorem after_add (mem : ℕ → W) (i j : ℕ) (c : Cpu D) :
    m.after mem (i + j) c = m.after mem j (m.after mem i c) := by
  rw [Nat.add_comm]
  exact Function.iterate_add_apply ..

/-- A branch-free stretch is executed in order and left behind. -/
theorem after_straight {mem : ℕ → W} {a : ℕ} {ws : List W} (hl : Loaded mem a ws)
    (hs : ∀ w ∈ ws, m.branch w = none) (d : D) :
    m.after mem ws.length ⟨a, d⟩ = ⟨a + ws.length, m.through ws d⟩ := by
  induction ws generalizing a d with
  | nil => rfl
  | cons w ws ih =>
    have hw := hs w (by simp)
    have hstep : m.step mem ⟨a, d⟩ = ⟨a + 1, m.effect w d⟩ := by
      simp [step, hl.head, hw]
    rw [List.length_cons, Nat.add_comm ws.length 1, after_add]
    change m.after mem ws.length (m.step mem ⟨a, d⟩) = _
    rw [hstep, ih hl.tail (fun x hx => hs x (by simp [hx]))]
    simp [Nat.add_assoc]

theorem after_take {mem : ℕ → W} {a : ℕ} {ws : List W} (hl : Loaded mem a ws)
    (hs : ∀ w ∈ ws, m.branch w = none) (d : D) {n : ℕ} (hn : n ≤ ws.length) :
    m.after mem n ⟨a, d⟩ = ⟨a + n, m.through (ws.take n) d⟩ := by
  have ht : Loaded mem a (ws.take n) := by
    rw [← List.take_append_drop n ws] at hl
    exact hl.left
  have h := after_straight ht (fun w hw => hs w (List.mem_of_mem_take hw)) d
  rwa [List.length_take_of_le hn] at h

/-- A program in memory from address 0 on that branches from its last word to its body. -/
structure Closed (m : Machine W D) (mem : ℕ → W) (pre body : List W) (back : W) : Prop where
  loaded : Loaded mem 0 (pre ++ (body ++ [back]))
  straight_pre : ∀ w ∈ pre, m.branch w = none
  straight_body : ∀ w ∈ body, m.branch w = none
  branch_back : m.branch back = some pre.length

variable (m) in
/-- The data with which pass `k` of the body begins. -/
def passEntry (pre body : List W) (back : W) (d : D) (k : ℕ) : D :=
  (m.through (body ++ [back]))^[k] (m.through pre d)

theorem passEntry_succ (pre body : List W) (back : W) (d : D) (k : ℕ) :
    m.passEntry pre body back d (k + 1) =
      m.through (body ++ [back]) (m.passEntry pre body back d k) :=
  Function.iterate_succ_apply' ..

/-- What the prelude establishes and every pass preserves holds whenever a pass begins. -/
theorem passEntry_invariant {I : D → Prop} {pre body : List W} {back : W} {d : D}
    (hpre : I (m.through pre d)) (hpass : ∀ d, I d → I (m.through (body ++ [back]) d)) (k : ℕ) :
    I (m.passEntry pre body back d k) := by
  induction k with
  | zero => exact hpre
  | succ k ih =>
    rw [passEntry_succ]
    exact hpass _ ih

namespace Closed
variable {mem : ℕ → W} {pre body : List W} {back : W}

theorem loaded_body (h : m.Closed mem pre body back) :
    Loaded mem pre.length (body ++ [back]) := by
  have := h.loaded.right
  rwa [Nat.zero_add] at this

theorem mem_back (h : m.Closed mem pre body back) : mem (pre.length + body.length) = back :=
  h.loaded_body.right.head

theorem at_prelude (h : m.Closed mem pre body back) (d : D) {n : ℕ} (hn : n ≤ pre.length) :
    m.after mem n ⟨0, d⟩ = ⟨n, m.through (pre.take n) d⟩ := by
  have := after_take h.loaded.left h.straight_pre d hn
  rwa [Nat.zero_add] at this

theorem word_at_prelude (h : m.Closed mem pre body back) (d : D) {n : ℕ} (hn : n < pre.length) :
    mem (m.after mem n ⟨0, d⟩).pc = pre[n] := by
  have hw := h.loaded.left n _ (List.getElem?_eq_getElem hn)
  rw [Nat.zero_add] at hw
  rw [h.at_prelude d hn.le]
  exact hw

theorem in_body (h : m.Closed mem pre body back) (d : D) {j : ℕ} (hj : j ≤ body.length) :
    m.after mem j ⟨pre.length, d⟩ = ⟨pre.length + j, m.through (body.take j) d⟩ :=
  after_take h.loaded_body.left h.straight_body d hj

theorem pass (h : m.Closed mem pre body back) (d : D) :
    m.after mem (body.length + 1) ⟨pre.length, d⟩ =
      ⟨pre.length, m.through (body ++ [back]) d⟩ := by
  rw [after_succ, h.in_body d le_rfl, List.take_length, through_append]
  simp [step, h.mem_back, h.branch_back]

theorem passes (h : m.Closed mem pre body back) (d : D) (k : ℕ) :
    m.after mem (pre.length + k * (body.length + 1)) ⟨0, d⟩ =
      ⟨pre.length, m.passEntry pre body back d k⟩ := by
  induction k with
  | zero => simpa [passEntry] using h.at_prelude d le_rfl
  | succ k ih =>
    rw [show pre.length + (k + 1) * (body.length + 1) =
      pre.length + k * (body.length + 1) + (body.length + 1) by ring]
    rw [after_add, ih, h.pass, passEntry_succ]

/-- Where the machine is `j` words into pass `k`. -/
theorem at_loop (h : m.Closed mem pre body back) (d : D) (k : ℕ) {j : ℕ}
    (hj : j ≤ body.length) :
    m.after mem (pre.length + k * (body.length + 1) + j) ⟨0, d⟩ =
      ⟨pre.length + j, m.through (body.take j) (m.passEntry pre body back d k)⟩ := by
  rw [after_add, h.passes, h.in_body _ hj]

/-- Every moment lies in the prelude or in one of the passes. -/
theorem moment (pre body : List W) (n : ℕ) :
    n < pre.length ∨ ∃ k j, j ≤ body.length ∧ n = pre.length + k * (body.length + 1) + j := by
  by_cases hn : n < pre.length
  · exact .inl hn
  · refine .inr ⟨(n - pre.length) / (body.length + 1), (n - pre.length) % (body.length + 1),
      Nat.le_of_lt_succ (Nat.mod_lt _ (by omega)), ?_⟩
    have := Nat.div_add_mod' (n - pre.length) (body.length + 1)
    omega

/-- The machine never leaves the program. -/
theorem pc_lt (h : m.Closed mem pre body back) (d : D) (n : ℕ) :
    (m.after mem n ⟨0, d⟩).pc < (pre ++ (body ++ [back])).length := by
  simp only [List.length_append, List.length_singleton]
  rcases moment pre body n with hn | ⟨k, j, hj, rfl⟩
  · rw [h.at_prelude d hn.le]
    change n < _
    omega
  · rw [h.at_loop d k hj]
    change pre.length + j < _
    omega

/-- The words executed during pass `k`, with the data they find. -/
theorem pass_visits (h : m.Closed mem pre body back) (d : D) (k : ℕ) :
    (List.range (body.length + 1)).map
        (fun j => m.visit mem (pre.length + k * (body.length + 1) + j) ⟨0, d⟩) =
      m.scan (body ++ [back]) (m.passEntry pre body back d k) := by
  apply List.ext_getElem?
  intro j
  rw [scan_getElem?, List.getElem?_map]
  by_cases hj : j < body.length + 1
  · have hw : (body ++ [back])[j]? = some (mem (pre.length + j)) := by
      have hlt : j < (body ++ [back]).length := by simpa using hj
      rw [List.getElem?_eq_getElem hlt, h.loaded_body j _ (List.getElem?_eq_getElem hlt)]
    rw [List.getElem?_range hj, hw]
    simp only [Option.map_some, visit, h.at_loop d k (Nat.le_of_lt_succ hj),
      List.take_append_of_le_length (Nat.le_of_lt_succ hj)]
  · simp [hj]

/-- Every word executed is one of the prelude or of some pass. -/
theorem visit_mem (h : m.Closed mem pre body back) (d : D) (n : ℕ) :
    m.visit mem n ⟨0, d⟩ ∈ m.scan pre d ∨
      ∃ k, m.visit mem n ⟨0, d⟩ ∈ m.scan (body ++ [back]) (m.passEntry pre body back d k) := by
  rcases moment pre body n with hn | ⟨k, j, hj, rfl⟩
  · left
    apply List.mem_of_getElem? (i := n)
    rw [scan_getElem?, List.getElem?_eq_getElem hn, visit, h.word_at_prelude d hn,
      h.at_prelude d hn.le]
    rfl
  · right
    refine ⟨k, ?_⟩
    rw [← h.pass_visits d k]
    exact List.mem_map.mpr ⟨j, List.mem_range.mpr (Nat.lt_succ_of_le hj), rfl⟩

/-- When no word of the prelude satisfies `p`, what one that does finds it finds in a pass. -/
theorem visit_seen (h : m.Closed mem pre body back) {p : W → Bool}
    (hpre : ∀ w ∈ pre, p w = false) (d : D) {n : ℕ} (hn : p (m.visit mem n ⟨0, d⟩).1) :
    ∃ k, (m.visit mem n ⟨0, d⟩).2 ∈
      m.seen p (body ++ [back]) (m.passEntry pre body back d k) := by
  rcases h.visit_mem d n with hv | ⟨k, hv⟩
  · have hnil := m.seen_of_none hpre d
    have hmem : (m.visit mem n ⟨0, d⟩).2 ∈ m.seen p pre d :=
      List.mem_map_of_mem (List.mem_filter.mpr ⟨hv, hn⟩)
    rw [hnil] at hmem
    cases hmem
  · exact ⟨k, List.mem_map_of_mem (List.mem_filter.mpr ⟨hv, hn⟩)⟩

/-- What a pass sees is visited. -/
theorem seen_visit (h : m.Closed mem pre body back) {p : W → Bool} {d x : D} {k : ℕ}
    (hx : x ∈ m.seen p (body ++ [back]) (m.passEntry pre body back d k)) :
    ∃ n, p (m.visit mem n ⟨0, d⟩).1 ∧ (m.visit mem n ⟨0, d⟩).2 = x := by
  obtain ⟨y, hy, rfl⟩ := List.mem_map.mp hx
  obtain ⟨hy, hp⟩ := List.mem_filter.mp hy
  rw [← h.pass_visits d k] at hy
  obtain ⟨j, -, rfl⟩ := List.mem_map.mp hy
  exact ⟨_, hp, rfl⟩

/-- Two memories that hold the same closed program are executed alike: the addresses and
words agree from the start, the data from the moment the prelude has made them equal. -/
theorem congr {mem' : ℕ → W} (h : m.Closed mem pre body back)
    (h' : m.Closed mem' pre body back) {d d' : D} {t : ℕ} (ht : t ≤ pre.length)
    (hd : m.through (pre.take t) d = m.through (pre.take t) d') (n : ℕ) :
    (m.after mem n ⟨0, d⟩).pc = (m.after mem' n ⟨0, d'⟩).pc ∧
      (t ≤ n → m.after mem n ⟨0, d⟩ = m.after mem' n ⟨0, d'⟩) := by
  induction n with
  | zero =>
    refine ⟨rfl, fun hn => ?_⟩
    obtain rfl : t = 0 := by omega
    exact congrArg (Cpu.mk 0) (by simpa using hd)
  | succ n ih =>
    obtain ⟨hpc, hn⟩ := ih
    have hmem : mem (m.after mem n ⟨0, d⟩).pc = mem' (m.after mem' n ⟨0, d'⟩).pc := by
      rw [← hpc]
      exact h.loaded.congr h'.loaded (h.pc_lt d n)
    constructor
    · rw [after_succ, after_succ]
      simp only [step]
      rw [hmem, hpc]
    · intro hle
      rcases Nat.lt_or_ge n t with hlt | hge
      · obtain rfl : t = n + 1 := by omega
        rw [h.at_prelude d ht, h'.at_prelude d' ht, hd]
      · rw [after_succ, after_succ]
        simp only [step]
        rw [hmem, hn hge]

end Closed
end Machine
end Sequencer
