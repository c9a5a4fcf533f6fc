import MarketDataEngine.Lib.History

/-!
# Machines seen through a view

A machine `M` seen through a view of its states can be a smaller machine `N`: an input of `M` is
then a list of inputs of `N`, possibly none, and an output of `M` a list of outputs of `N`.
`Simulation` asks this of one step, and `Simulation.state` and `Simulation.log` give it for runs. So
two runs of `M` with the same inputs for `N`, from states that look the same, go on looking the
same, whatever else is in them (`Simulation.congr`).
-/

namespace History.Machine

variable {σ ι ω σ' ι' ω' : Type*}

/-- The state that a machine is brought to from `s`, and what it puts out on the way. -/
def run (M : Machine σ ι ω) (s : σ) (is : List ι) : σ × List ω := is.foldl M.advance (s, [])

/-- Every step of `M` is, through the view, a run of `N`. -/
structure Simulation (M : Machine σ ι ω) (N : Machine σ' ι' ω') (view : σ → σ')
    (inputs : ι → List ι') (outputs : ω → List ω') : Prop where
  init : view M.init = N.init
  step : ∀ s i, N.run (view s) (inputs i) = (view (M.step s i).1, (M.step s i).2.flatMap outputs)

section
variable (M : Machine σ ι ω)

@[simp] theorem run_nil (s : σ) : M.run s [] = (s, []) := rfl

/-- What was put out before a run stays in front of it. -/
theorem foldl_advance (s : σ) (l : List ω) (is : List ι) :
    is.foldl M.advance (s, l) = ((M.run s is).1, l ++ (M.run s is).2) := by
  induction is using List.reverseRecOn with
  | nil => simp
  | append_singleton is i ih => simp [run, ih, advance]

@[simp] theorem run_singleton (s : σ) (i : ι) : M.run s [i] = M.step s i := by
  simp [run, advance]

/-- A run is cut in two anywhere. -/
theorem run_append (s : σ) (is js : List ι) : M.run s (is ++ js) =
    ((M.run (M.run s is).1 js).1, (M.run s is).2 ++ (M.run (M.run s is).1 js).2) := by
  rw [run, List.foldl_append, ← run, foldl_advance]

/-- A run is its first step, and a run from there. -/
theorem run_cons (s : σ) (i : ι) (is : List ι) : M.run s (i :: is) =
    ((M.run (M.step s i).1 is).1, (M.step s i).2 ++ (M.run (M.step s i).1 is).2) := by
  rw [← List.singleton_append, run_append, run_singleton]

/-- A run from the initial state is given by the state and the log. -/
theorem run_init (is : List ι) : M.run M.init is = (M.state is, M.log is) :=
  Prod.ext (M.foldl_advance_fst is) rfl

/-- A run that goes on. -/
theorem state_append (is js : List ι) : M.state (is ++ js) = (M.run (M.state is) js).1 := by
  have hrun := M.run_append M.init is js
  rw [run_init, run_init] at hrun
  exact congrArg Prod.fst hrun

/-- The log of a run that goes on. -/
theorem log_append (is js : List ι) :
    M.log (is ++ js) = M.log is ++ (M.run (M.state is) js).2 := by
  have hrun := M.run_append M.init is js
  rw [run_init, run_init] at hrun
  exact congrArg Prod.snd hrun

end

namespace Simulation

variable {M : Machine σ ι ω} {N : Machine σ' ι' ω'} {view : σ → σ'} {inputs : ι → List ι'}
  {outputs : ω → List ω'}

/-- **A run of the machine is a run of the smaller one.** -/
theorem run_eq (h : Simulation M N view inputs outputs) (s : σ) (is : List ι) :
    N.run (view s) (is.flatMap inputs) =
      (view (M.run s is).1, (M.run s is).2.flatMap outputs) := by
  induction is generalizing s with
  | nil => rfl
  | cons i is ih =>
    rw [List.flatMap_cons, run_append, h.step, ih, run_cons, List.flatMap_append]

/-- A run of the larger machine is one of the smaller machine, from both initial states. -/
theorem run_init_eq (h : Simulation M N view inputs outputs) (is : List ι) :
    (N.state (is.flatMap inputs), N.log (is.flatMap inputs)) =
      (view (M.state is), (M.log is).flatMap outputs) := by
  have hrun := h.run_eq M.init is
  rw [h.init, run_init, run_init] at hrun
  exact hrun

/-- The view of a state is the state of the smaller machine. -/
theorem state (h : Simulation M N view inputs outputs) (is : List ι) :
    view (M.state is) = N.state (is.flatMap inputs) :=
  (congrArg Prod.fst (h.run_init_eq is)).symm

/-- The outputs of the larger machine show the log of the smaller one. -/
theorem log (h : Simulation M N view inputs outputs) (is : List ι) :
    (M.log is).flatMap outputs = N.log (is.flatMap inputs) :=
  (congrArg Prod.snd (h.run_init_eq is)).symm

/-- Two runs with the same inputs for the smaller machine, from states that look the same through
the view, go on looking the same. -/
theorem congr (h : Simulation M N view inputs outputs) {s s' : σ} {is js : List ι}
    (hview : view s = view s') (heq : is.flatMap inputs = js.flatMap inputs) :
    view (M.run s is).1 = view (M.run s' js).1 ∧
      (M.run s is).2.flatMap outputs = (M.run s' js).2.flatMap outputs := by
  have hrun := h.run_eq s is
  rw [heq, hview, h.run_eq s' js] at hrun
  obtain ⟨hstate, hlog⟩ := Prod.mk.inj hrun
  exact ⟨hstate.symm, hlog.symm⟩

end Simulation

end History.Machine
