import RegisterVm.Proofs.Machine.Reachability

/-!
# Promotion of loops is invisible

Two sound executions that the interpreter sees alike end alike (`Execution.run_agrees`): every step
of one is matched by a step of the other, up to the steps by which compiled loops are left. So a
call has the same result and leaves the same machine whatever the settings of compiled loops and
whatever the profile of the loops (`Machine.execute_agrees`).
-/

namespace RegisterVm

/-! ## Matching steps -/

namespace Execution

variable {base : Nat} {x y : Execution}

/-- After at most one step an execution makes a step of the interpreter. -/
theorem Sound.ready (h : x.Sound base) : ∃ z, (z = x ∨ x.step = .running z) ∧ z.Sound base ∧
    z.settled = x.settled ∧ z.step.Shows base x.settled.step.settled := by
  have advances := h.advances
  generalize hs : x.step = s at advances
  cases advances with
  | step shown => exact ⟨x, .inl rfl, h, rfl, hs ▸ shown⟩
  | @leave z _ _ sound same left =>
    exact ⟨z, .inr rfl, sound, same, same ▸ sound.step_shows left⟩

/-- **Executions that the interpreter sees alike end alike.** -/
theorem run_agrees (hx : x.Sound base) (hy : y.Sound base) (same : x.settled = y.settled)
    {fuel : Nat} {m : Machine} {r : Outcome Value} (ran : x.run fuel = some (m, r)) :
    ∃ fuel' m', y.run fuel' = some (m', r) ∧ m'.plain = m.plain := by
  induction fuel generalizing x y with
  | zero => cases ran
  | succ fuel ih =>
    have advances := hx.advances
    generalize hs : x.step = s at advances
    cases advances with
    | leave sound seen =>
      rw [run_step hs] at ran
      exact ih sound hy (seen.trans same) ran
    | step shown =>
      obtain ⟨z, reached, hz, seen, shown'⟩ := hy.ready
      -- It is enough to match the step at `z`, which `y` reaches.
      suffices ∃ fuel' m', z.run fuel' = some (m', r) ∧ m'.plain = m.plain by
        obtain ⟨fuel', m', ran', plain⟩ := this
        rcases reached with rfl | stepped
        · exact ⟨fuel', m', ran', plain⟩
        · exact ⟨fuel' + 1, m', (run_step stepped fuel').trans ran', plain⟩
      have alike : s.settled = z.step.settled := by
        rw [shown.settled, shown'.settled, same]
      cases s with
      | running x' =>
        rw [run_step hs] at ran
        cases hz' : z.step with
        | running z' =>
          have sound := shown'.sound
          rw [hz'] at alike sound
          obtain ⟨fuel', m', ran', plain⟩ := ih shown.sound sound (Status.running.inj alike) ran
          exact ⟨fuel' + 1, m', (run_step hz' fuel').trans ran', plain⟩
        | finished m' r' =>
          rw [hz'] at alike
          cases alike
      | finished m₁ r₁ =>
        rw [run_finished hs] at ran
        cases ran
        cases hz' : z.step with
        | running z' =>
          rw [hz'] at alike
          cases alike
        | finished m' r' =>
          rw [hz'] at alike
          obtain ⟨plain, rfl⟩ := Status.finished.inj alike
          exact ⟨1, m', run_finished hz' 0, plain.symm⟩

end Execution

/-! ## A countdown -/

/-- Counts down from 3 in the loop from address 1 to address 2. -/
def Chunk.countdown : Chunk :=
  ⟨"countdown", #[⟨.loadInt ⟨0⟩ 3, none⟩, ⟨.decrement ⟨0⟩, none⟩, ⟨.branch true ⟨0⟩ 1, none⟩,
    ⟨.ret ⟨0⟩, none⟩], #[], 1, 0, []⟩

def LoadedFunction.countdown : LoadedFunction := ⟨.countdown, #[], [⟨1, 2⟩]⟩

namespace Machine

/-- The machine into which only the countdown was loaded. Should it compile loops, it does so at
their first backward branch. -/
def countdown (compileLoops : Bool) : Machine :=
  { start ⟨compileLoops, 1, 1000, false, false⟩ with
    library := (Library.empty.load .countdown).2 }

/-- The countdown at an address, with `i` left. -/
def countdownAt (i : Int64) (pc : Nat) : Execution :=
  ⟨(countdown true).descend, ⟨0, ⟨#[.int i], true⟩, pc, [], none, none⟩, []⟩

theorem backEdge_countdown (frame : Frame) :
    backEdge 0 .countdown 1 (countdown true).descend frame =
      promote 0 .countdown ⟨⟨1, 2⟩, ⟨1, .compiling⟩, none⟩ (countdown true).descend frame := by
  have new : (countdown true).descend.library.record? 0 1 = none := Std.HashMap.getElem?_empty
  have found : (countdown true).descend.library.recordOf? 0 .countdown 1 =
      some (.start ⟨1, 2⟩) := by
    simp only [Library.recordOf?, new]
    rfl
  simp only [backEdge, found]
  rfl

theorem profiled_countdown (compileLoops : Bool) :
    (countdown true).Profiled (countdown compileLoops) where
  plain := rfl
  profile id header r found := by
    have new : (countdown compileLoops).library.record? id header = none :=
      Std.HashMap.getElem?_empty
    cases found.symm.trans new

/-! ## Calls -/

variable {m₁ m₂ : Machine} {id : FunctionId} {args : List Value}

/-- An answer on one of two machines with the same plain machine is matched on the other. -/
theorem execute_matched (h₁ : m₁.library.Sound) (h₂ : m₂.library.Sound)
    (same : m₁.plain = m₂.plain) {fuel : Nat} {m : Machine} {r : Outcome Value}
    (ran : m₁.execute fuel id args = some (m, r)) :
    ∃ fuel' m', m₂.execute fuel' id args = some (m', r) ∧ m'.plain = m.plain := by
  have enter := (steady_enter m₁ id args).plain m₁ rfl
  rw [same, (steady_enter m₂ id args).plain m₂ rfl] at enter
  have depth : m₁.depth = m₂.depth := by
    rw [← depth_plain, same, depth_plain]
  unfold execute at ran ⊢
  cases entered₁ : MachineM.enter id args none m₁ with
  | error e m =>
    cases entered₂ : MachineM.enter id args none m₂ with
    | error e' m' =>
      rw [entered₁, entered₂] at enter
      simp only [MachineM.plainResult, EStateM.Result.error.injEq] at enter
      obtain ⟨rfl, plain⟩ := enter
      rw [entered₁] at ran
      cases ran
      exact ⟨0, m', rfl, plain⟩
    | ok frame m' =>
      rw [entered₁, entered₂] at enter
      cases enter
  | ok frame m =>
    cases entered₂ : MachineM.enter id args none m₂ with
    | error e m' =>
      rw [entered₁, entered₂] at enter
      cases enter
    | ok frame' m' =>
      rw [entered₁, entered₂] at enter
      simp only [MachineM.plainResult, EStateM.Result.ok.injEq] at enter
      obtain ⟨rfl, plain⟩ := enter
      rw [entered₁] at ran
      refine Execution.run_agrees (enter_sound h₁ entered₁) (depth ▸ enter_sound h₂ entered₂) ?_ ran
      simp only [Execution.settled, plain_descend, plain]

/-- **Promotion is invisible.** A chunk that was loaded is called on two machines that differ from
the one it was loaded into in the settings of compiled loops and the profile of loops at most: when
both calls end, they end with the same result, that is the value or the failure with its trace, and
leave the same heap, globals and output; and when one call ends, so does the other. -/
theorem execute_agrees {m loaded : Machine} {c : Chunk} (reached : m.Reached)
    (load : m.load c = .ok (id, loaded)) (h₁ : loaded.Profiled m₁) (h₂ : loaded.Profiled m₂)
    (args : List Value) :
    (∀ {fuel₁ fuel₂ : Nat} {m₁' m₂' : Machine} {r₁ r₂ : Outcome Value},
      m₁.execute fuel₁ id args = some (m₁', r₁) → m₂.execute fuel₂ id args = some (m₂', r₂) →
      r₁ = r₂ ∧ m₁'.plain = m₂'.plain) ∧
    ((∃ fuel, (m₁.execute fuel id args).isSome) ↔ ∃ fuel, (m₂.execute fuel id args).isSome) := by
  have sound := load_sound reached.sound load
  have same : m₁.plain = m₂.plain := h₁.plain.trans h₂.plain.symm
  refine ⟨fun ran₁ ran₂ => ?_, ?_, ?_⟩
  · obtain ⟨fuel, m', ran, plain⟩ := execute_matched (h₁.sound sound) (h₂.sound sound) same ran₁
    obtain ⟨rfl, rfl⟩ := Prod.mk.inj (execute_unique ran ran₂)
    exact ⟨rfl, plain.symm⟩
  · rintro ⟨fuel, ends⟩
    obtain ⟨⟨m', r⟩, ran⟩ := Option.isSome_iff_exists.mp ends
    obtain ⟨fuel', m'', ran', -⟩ := execute_matched (h₁.sound sound) (h₂.sound sound) same ran
    exact ⟨fuel', by rw [ran']; rfl⟩
  · rintro ⟨fuel, ends⟩
    obtain ⟨⟨m', r⟩, ran⟩ := Option.isSome_iff_exists.mp ends
    obtain ⟨fuel', m'', ran', -⟩ := execute_matched (h₂.sound sound) (h₁.sound sound) same.symm ran
    exact ⟨fuel', by rw [ran']; rfl⟩

/-- A countdown that is compiled at its first backward branch ends as the one that never is. -/
theorem execute_agrees_countdown :
    ∃ (m₁ m₂ : Machine) (fuel₁ fuel₂ : Nat),
      (start ⟨true, 1, 1000, false, false⟩).load .countdown = .ok (0, countdown true) ∧
      (countdown true).Profiled (countdown false) ∧
      (countdown true).execute fuel₁ 0 [] = some (m₁, .ok (.int 0)) ∧
      m₁.events = #[.compiled "countdown" 1 2 1] ∧
      (countdown false).execute fuel₂ 0 [] = some (m₂, .ok (.int 0)) ∧
      m₁.plain = m₂.plain := by
  have load : (start ⟨true, 1, 1000, false, false⟩).load .countdown = .ok (0, countdown true) := rfl
  have branches : (countdownAt 2 2).step = .running
      ⟨(backEdge 0 .countdown 1 (countdown true).descend (countdownAt 2 1).frame).1,
        (backEdge 0 .countdown 1 (countdown true).descend (countdownAt 2 1).frame).2, []⟩ := rfl
  rw [backEdge_countdown] at branches
  obtain ⟨m₁, ran₁, compiled⟩ : ∃ m₁, (countdown true).execute 9 0 [] =
      some (m₁, .ok (.int 0)) ∧ m₁.events = #[.compiled "countdown" 1 2 1] :=
    ⟨_, (Execution.run_step branches 6 : (countdownAt 2 2).run 7 = _), rfl⟩
  obtain ⟨agree, ends⟩ :=
    execute_agrees (.start _) load (profiled_countdown true) (profiled_countdown false) []
  obtain ⟨fuel₂, ended⟩ := ends.mp ⟨9, by rw [ran₁]; rfl⟩
  obtain ⟨⟨m₂, r⟩, ran₂⟩ := Option.isSome_iff_exists.mp ended
  obtain ⟨rfl, same⟩ := agree ran₁ ran₂
  exact ⟨m₁, m₂, 9, fuel₂, load, profiled_countdown false, ran₁, compiled, ran₂, same⟩

end Machine

end RegisterVm
