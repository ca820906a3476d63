import LimeSdrGw.Nios.SpiStages
/-
# Runs of commands

Whenever the driver is between two commands, the wires have seen the commands done, one transcript after
the other, and each has returned the bits that came back in its own time. A processor that keeps coming
by gets through all of them.
-/
namespace Nios

open Clocked

namespace Driver

/-- The command that has begun. -/
def inHand (d : Driver) : List SpiCommand := if d.pc = .idle then [] else [d.cmd]

/-- All commands, in their order. -/
def commands (d : Driver) : List SpiCommand := d.done.map Prod.fst ++ d.inHand ++ d.todo

theorem commands_congr {d d' : Driver} (hpc : d.pc ≠ .idle) (hpc' : d'.pc ≠ .idle)
    (hcmd : d'.cmd = d.cmd) (htodo : d'.todo = d.todo) (hdone : d'.done = d.done) :
    d'.commands = d.commands := by
  rw [commands, commands, inHand, inHand, if_neg hpc, if_neg hpc', hcmd, htodo, hdone]

theorem afterTx_pc (d : Driver) (rrdy : Bool) : (d.afterTx rrdy).pc ≠ .idle := by
  cases rrdy <;> exact Pc.noConfusion

theorem commands_poll {d : Driver} (trdy rrdy : Bool) (hpc : d.pc = .poll) :
    (d.poll trdy rrdy).commands = d.commands := by
  have hne : d.pc ≠ .idle := by
    rw [hpc]
    exact Pc.noConfusion
  rw [poll]
  split
  · rfl
  · split
    · cases d.writeData with
      | cons b bs => exact commands_congr hne Pc.noConfusion rfl rfl rfl
      | nil =>
        show Driver.commands (if 0 < d.writeZeros then _ else _) = _
        split
        · exact commands_congr hne Pc.noConfusion rfl rfl rfl
        · exact commands_congr hne (afterTx_pc _ _) rfl rfl rfl
    · exact commands_congr hne (afterTx_pc _ _) rfl rfl rfl

theorem commands_rx {d : Driver} (b : BitVec 8) (hpc : d.pc = .rx) :
    (d.rx b).commands = d.commands := by
  have hne : d.pc ≠ .idle := by
    rw [hpc]
    exact Pc.noConfusion
  have hstore : (d.store b).cmd = d.cmd ∧ (d.store b).todo = d.todo ∧ (d.store b).done = d.done := by
    rw [store]
    split <;> exact ⟨rfl, rfl, rfl⟩
  obtain ⟨hcmd, htodo, hdone⟩ := hstore
  rw [rx]
  split
  · exact commands_congr hne Pc.noConfusion hcmd htodo hdone
  · exact commands_congr hne Pc.noConfusion hcmd htodo hdone

theorem commands_next (d : Driver) (data : BitVec 16) : (d.next data).commands = d.commands := by
  cases hpc : d.pc with
  | idle => rw [next, hpc]
  | poll =>
    rw [next, hpc]
    exact commands_poll _ _ hpc
  | rx =>
    rw [next, hpc]
    exact commands_rx _ hpc
  | release =>
    rw [next, hpc]
    simp [commands, inHand, hpc]
  | tmt =>
    rw [next, hpc]
    dsimp only
    split
    · rfl
    · simp [commands, inHand, hpc]
  | tx b rrdy =>
    rw [next, hpc]
    exact commands_congr (by rw [hpc]; exact Pc.noConfusion) (afterTx_pc _ _) rfl rfl rfl
  | slaveSel => simp [next, commands, inHand, hpc]
  | control => simp [next, commands, inHand, hpc]
  | discard => simp [next, commands, inHand, hpc]

/-- No command is lost, and none changes its place. -/
theorem commands_step (d : Driver) (go : Bool) (data : BitVec 16) :
    (d.step go data).commands = d.commands := by
  cases h2 : d.second with
  | true =>
    rw [step_next h2]
    exact commands_next d data
  | false =>
    by_cases hpc : d.pc = .idle
    · rw [step, h2, hpc]
      cases go with
      | false => rfl
      | true =>
        cases htodo : d.todo with
        | nil => rfl
        | cons c cs => simp [begin, commands, inHand, hpc, htodo]
    · rw [step_hold h2 hpc]
      rfl

end Driver

section stage

variable {d : Driver} {s : SpiMaster} {log : List WireEvent} {r : Nat}

theorem Stage.of_idle (st : Stage d s log r) (hidle : d.pc = .idle) : log = [] := by
  cases st with
  | idle => rfl
  | _ hpc => exact absurd (hidle.symm.trans hpc) Pc.noConfusion

theorem Stage.of_zero (st : Stage d s log r) (hr : r = 0) : d.pc = .idle ∧ d.todo = [] := by
  have hsec := Bool.toNat_le d.second
  cases st with
  | idle hpc =>
    refine ⟨hpc, ?_⟩
    cases htodo : d.todo with
    | nil => rfl
    | cons c cs =>
      rw [Driver.toCome, htodo, List.map_cons, List.sum_cons] at hr
      omega
  | _ => omega

end stage

/-- `log` is what the commands done have shown, and the beginning of the one in hand. -/
def Carried (s : SpiHost) (log : List WireEvent) (r : Nat) : Prop :=
  ∃ past cur, log = past ++ cur ∧ Served s.cpu.done past ∧ Stage s.cpu s.core cur r

theorem Carried.step {s : SpiHost} {log : List WireEvent} {r : Nat} (i : SpiHostIn)
    (h : Carried s log r) (hs : Strobes s.cpu.pending s.core)
    (hne : ∀ c ∈ s.cpu.todo, c.bytes ≠ []) :
    ∃ r', Carried (s.step i) (log ++ s.wire i) r' ∧ r' ≤ r - i.go.toNat := by
  obtain ⟨past, cur, rfl, served, st⟩ := h
  rw [SpiHost.wire_eq, List.append_assoc]
  rcases st.step i.go i.miso hs hne with
    ⟨r', st', hr, hdone⟩ | ⟨miso, r', st', hr, hlen, hlog, hdone⟩
  · refine ⟨r', ⟨past, _, rfl, ?_, st'⟩, hr⟩
    show Served (s.cpu.step i.go s.core.dataToCpu).done past
    rw [hdone]
    exact served
  · refine ⟨r', ⟨past ++ s.cpu.cmd.transcript miso, [], ?_, ?_, st'⟩, hr⟩
    · rw [hlog, List.append_nil]
    · show Served (s.cpu.step i.go s.core.dataToCpu).done _
      rw [hdone]
      exact served.snoc s.cpu.cmd miso hlen

section run

variable {cmds : List SpiCommand} {x : Nat → SpiHostIn} {n : Nat}

theorem commands_at (cmds : List SpiCommand) (x : Nat → SpiHostIn) (n : Nat) :
    ((spiHost cmds).state x n).cpu.commands = cmds := by
  induction n with
  | zero => rfl
  | succ n ih => exact (Driver.commands_step _ _ _).trans ih

theorem strobes_at (cmds : List SpiCommand) (x : Nat → SpiHostIn) (n : Nat) :
    Strobes ((spiHost cmds).state x n).cpu.pending ((spiHost cmds).state x n).core := by
  induction n with
  | zero => exact ⟨rfl, rfl, rfl, rfl⟩
  | succ n ih => exact ih.step

theorem todo_proper (hne : ∀ c ∈ cmds, c.bytes ≠ []) :
    ∀ c ∈ ((spiHost cmds).state x n).cpu.todo, c.bytes ≠ [] := by
  intro c hc
  apply hne
  rw [← commands_at cmds x n]
  exact List.mem_append_right _ hc

theorem carried_at (hne : ∀ c ∈ cmds, c.bytes ≠ []) (x : Nat → SpiHostIn) (n : Nat) :
    ∃ r, Carried ((spiHost cmds).state x n) ((spiHost cmds).log SpiHost.wire x n) r := by
  induction n with
  | zero =>
    exact ⟨_, [], [], rfl, .nil, .idle rfl rfl ⟨rfl, rfl, rfl, rfl, rfl, rfl, rfl⟩ rfl⟩
  | succ n ih =>
    obtain ⟨r, h⟩ := ih
    obtain ⟨r', h', -⟩ := h.step (x n) (strobes_at cmds x n) (todo_proper hne)
    exact ⟨r', h'⟩

/-- Between two commands the wires have seen the transcripts of those done and nothing else, and every
    one has returned what came back while it was being sent. -/
theorem served_between (hne : ∀ c ∈ cmds, c.bytes ≠ [])
    (hidle : ((spiHost cmds).state x n).cpu.pc = .idle) :
    Served ((spiHost cmds).state x n).cpu.done ((spiHost cmds).log SpiHost.wire x n) ∧
      ((spiHost cmds).state x n).cpu.done.map Prod.fst ++ ((spiHost cmds).state x n).cpu.todo = cmds := by
  obtain ⟨r, past, cur, hlog, served, st⟩ := carried_at hne x n
  constructor
  · rw [hlog, st.of_idle hidle, List.append_nil]
    exact served
  · have h := commands_at cmds x n
    rw [Driver.commands, Driver.inHand, if_pos hidle, List.append_nil] at h
    exact h

/-- The rank never rises. -/
theorem carried_later (hne : ∀ c ∈ cmds, c.bytes ≠ []) {r : Nat}
    (h : Carried ((spiHost cmds).state x n) ((spiHost cmds).log SpiHost.wire x n) r) (k : Nat) :
    ∃ r', Carried ((spiHost cmds).state x (n + k)) ((spiHost cmds).log SpiHost.wire x (n + k)) r' ∧
      r' ≤ r := by
  induction k with
  | zero => exact ⟨r, h, Nat.le_refl r⟩
  | succ k ih =>
    obtain ⟨r', h', hr⟩ := ih
    obtain ⟨q, hq, hle⟩ := h'.step (x (n + k)) (strobes_at cmds x (n + k)) (todo_proper hne)
    exact ⟨q, hq, by omega⟩

/-- A processor that keeps coming by gets through all commands, and stays at rest then. -/
theorem served_all (hne : ∀ c ∈ cmds, c.bytes ≠ []) (fair : ∀ n, ∃ k, n ≤ k ∧ (x k).go = true) :
    ∃ n, ∀ k, n ≤ k → ((spiHost cmds).state x k).cpu.pc = .idle ∧
      ((spiHost cmds).state x k).cpu.done.map Prod.fst = cmds ∧
      Served ((spiHost cmds).state x k).cpu.done ((spiHost cmds).log SpiHost.wire x k) := by
  have key : ∀ r n, Carried ((spiHost cmds).state x n) ((spiHost cmds).log SpiHost.wire x n) r →
      ∃ m, Carried ((spiHost cmds).state x m) ((spiHost cmds).log SpiHost.wire x m) 0 := by
    intro r
    induction r using Nat.strongRecOn with
    | ind r ih =>
      intro n h
      by_cases h0 : r = 0
      · exact ⟨n, h0 ▸ h⟩
      · obtain ⟨k, hk, hgo⟩ := fair n
        obtain ⟨r', h', hr'⟩ := carried_later hne h (k - n)
        rw [Nat.add_sub_cancel' hk] at h'
        obtain ⟨q, hq, hle⟩ := h'.step (x k) (strobes_at cmds x k) (todo_proper hne)
        rw [hgo, Bool.toNat_true] at hle
        exact ih q (by omega) (k + 1) hq
  obtain ⟨r, h⟩ := carried_at hne x 0
  obtain ⟨m, hm⟩ := key r 0 h
  refine ⟨m, ?_⟩
  intro k hk
  obtain ⟨q, hq, hle⟩ := carried_later hne hm (k - m)
  rw [Nat.add_sub_cancel' hk] at hq
  obtain ⟨past, cur, hlog, served, st⟩ := hq
  obtain ⟨hidle, htodo⟩ := st.of_zero (Nat.le_zero.1 hle)
  obtain ⟨hs, hall⟩ := served_between hne hidle
  rw [htodo, List.append_nil] at hall
  exact ⟨hidle, hall, hs⟩

/-- Commands reach the wires in their order, each as a whole: whenever the driver is between two of them,
    the wires have seen the transcripts of those done and nothing else, and each has returned what came
    back in its own time. A processor that keeps coming by gets through all of them. -/
theorem commands_served (hne : ∀ c ∈ cmds, c.bytes ≠ []) (x : Nat → SpiHostIn) :
    (∀ n, ((spiHost cmds).state x n).cpu.pc = .idle →
      Served ((spiHost cmds).state x n).cpu.done ((spiHost cmds).log SpiHost.wire x n) ∧
        ((spiHost cmds).state x n).cpu.done.map Prod.fst ++ ((spiHost cmds).state x n).cpu.todo =
          cmds) ∧
    ((∀ n, ∃ k, n ≤ k ∧ (x k).go = true) → ∃ n, ∀ k, n ≤ k →
      ((spiHost cmds).state x k).cpu.pc = .idle ∧
        ((spiHost cmds).state x k).cpu.done.map Prod.fst = cmds) := by
  refine ⟨fun n hidle => served_between hne hidle, fun fair => ?_⟩
  obtain ⟨n, hn⟩ := served_all hne fair
  exact ⟨n, fun k hk => ⟨(hn k hk).1, (hn k hk).2.1⟩⟩

/-- Two commands to different slaves, the second one reading. -/
theorem commands_served_pair :
    let cmds : List SpiCommand := [⟨spiNrFpga, [0x80, 0x07, 0x12, 0x34], 0⟩, ⟨spiNrLms7002m, [0x00, 0x20], 2⟩]
    ∃ n, ((spiHost cmds).state (fun _ => ⟨true, false⟩) n).cpu.done.map Prod.fst = cmds := by
  intro cmds
  have hne : ∀ c ∈ cmds, c.bytes ≠ [] := by decide
  obtain ⟨n, hn⟩ := (commands_served hne fun _ => ⟨true, false⟩).2 fun n => ⟨n, Nat.le_refl n, rfl⟩
  exact ⟨n, (hn n (Nat.le_refl n)).2⟩

end run

end Nios
