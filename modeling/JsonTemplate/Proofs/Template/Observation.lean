import JsonTemplate.Proofs.Evaluation.Names
import JsonTemplate.Proofs.Template.Simulation
import JsonTemplate.Proofs.Template.Steps

namespace JsonTemplate

-- An expression that a walk evaluated, and what came of it.
structure Evaluation where
  source : String
  outcome : Except EvalError Value

namespace Walker

variable {σ : Type}

-- A walker that also writes down what it evaluates.
def recording (walker : Walker σ) : Walker (σ × List Evaluation) where
  evaluate source := ExceptT.mk fun (s, log) =>
    let (outcome, s) := (walker.evaluate source).run s
    (outcome, s, log ++ [⟨source, outcome⟩])
  config := walker.config

theorem extends_evaluate (walker : Walker σ) (source : String) :
    Extends _ (walker.recording.evaluate source).run (walker.evaluate source).run :=
  fun _ _ => ⟨_, rfl⟩

-- The recording walk is the walk itself with a record beside it.
theorem extends_walk (walker : Walker σ) (root : Json) :
    Extends _ (walker.recording.walk root) (walker.walk root) :=
  compatible_extends.walk walker.extends_evaluate root

-- A computation that does the same as another one as long as what it has written down is good.
def Follows (good : List Evaluation → Prop) (α : Type) (x y : StateM (σ × List Evaluation) α) : Prop :=
  ∀ s log, good (x.run (s, log)).2.2 → good log ∧ y.run (s, log) = x.run (s, log)

theorem compatible_follows (good : List Evaluation → Prop) : Compatible (@Follows σ good) where
  pure a s log h := ⟨h, rfl⟩
  bind := by
    intro α β x y f g hx hf s log h
    rw [StateT.run_bind] at h
    obtain ⟨hmiddle, hrest⟩ := hf _ _ _ h
    obtain ⟨hlog, hfirst⟩ := hx s log hmiddle
    refine ⟨hlog, ?_⟩
    rw [StateT.run_bind, StateT.run_bind, hfirst]
    exact hrest

-- The walker of a scope.
def inScope (host : Host σ) (config : Config) (scope : Fields Value) : Walker σ :=
  ⟨JsonTemplate.evaluate host scope, config⟩

-- Scopes that give the same values, or none, to the names of some evaluated expressions.
def Agree (scope other : Fields Value) (log : List Evaluation) : Prop :=
  ∀ evaluation ∈ log, ∀ n ∈ namesOfSource evaluation.source, scope.get? n = other.get? n

variable (host : Host σ) (config : Config) {scope other : Fields Value}

theorem follows_evaluate (source : String) :
    Follows (Agree scope other) _ ((inScope host config scope).recording.evaluate source).run
      ((inScope host config other).recording.evaluate source).run := by
  intro s log h
  have hsource := evaluate_congr host source (h _ (List.mem_append_right _ (List.mem_singleton_self _)))
  refine ⟨fun evaluation hmem => h evaluation (List.mem_append_left _ hmem), ?_⟩
  simp only [recording, inScope, hsource]

-- A walk depends on the scope only through the names of the expressions that it evaluates. Over a
-- scope that agrees on these it evaluates the same expressions with the same results, and it leaves
-- the same tree.
theorem walk_observes_names (s : σ) (root : Json)
    (hagree : Agree scope other (((inScope host config scope).recording.walk root).run (s, [])).2.2) :
    ((inScope host config other).recording.walk root).run (s, []) =
        ((inScope host config scope).recording.walk root).run (s, []) ∧
      ((inScope host config other).walk root).run s = ((inScope host config scope).walk root).run s := by
  have hrecorded := ((compatible_follows _).walk (follows_evaluate host config) root s [] hagree).2
  refine ⟨hrecorded, ?_⟩
  obtain ⟨more, hmore⟩ := extends_walk (inScope host config scope) root s []
  obtain ⟨further, hfurther⟩ := extends_walk (inScope host config other) root s []
  obtain ⟨hresult, hrest⟩ := Prod.mk.inj ((hfurther.symm.trans hrecorded).trans hmore)
  exact Prod.ext hresult (Prod.mk.inj hrest).1

end Walker

-- A text with a name, and one without a value.
def observed : Json :=
  .object [("a", .string "\x7b\x7bx\x7d\x7d"), ("b", .string "\x7b\x7by\x7d\x7d")]

theorem walk_observes_names_beside_other :
    let walk scope := (Walker.inScope idleHost .standard scope).walk observed
    ((walk [("z", .null), ("x", .string "v")]).run ()).1.1 =
        .object [("a", .string "v"), ("b", .string "\x7b\x7by\x7d\x7d")] ∧
      (walk [("x", .string "v")]).run () = (walk [("z", .null), ("x", .string "v")]).run () := by
  have hlog : (((Walker.inScope idleHost .standard [("z", .null), ("x", .string "v")]).recording.walk observed).run
      ((), [])).2.2 = [⟨"x", .ok (.string "v")⟩, ⟨"y", .error (.undefinedReference "y")⟩] := rfl
  have hnames : namesOfSource "x" = ["x"] ∧ namesOfSource "y" = ["y"] := ⟨rfl, rfl⟩
  refine ⟨rfl, (Walker.walk_observes_names idleHost .standard () observed ?_).2⟩
  intro evaluation hmem n hn
  rw [hlog, List.mem_cons, List.mem_singleton] at hmem
  rcases hmem with rfl | rfl
  · rw [hnames.1, List.mem_singleton] at hn
    rw [hn]
    rfl
  · rw [hnames.2, List.mem_singleton] at hn
    rw [hn]
    rfl

end JsonTemplate
