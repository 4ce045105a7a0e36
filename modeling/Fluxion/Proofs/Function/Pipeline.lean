import Fluxion.Proofs.Arena.Reachability
import Fluxion.Proofs.Definition.Parsing
import Fluxion.Proofs.Function.Kinds
import Fluxion.Proofs.Simplification.InPlace
/- What becomes of a parsed function that is differentiated and simplified, in any order and as
   often as one likes. Its body always fills its arena with a well-shaped tree whose parameters are
   in the table (`IsSound`). Parsing makes such functions (`isSound_of_parse`), each transformation
   keeps them (`IsSound.transform`), and so does a run of any length (`IsSound.run`).

   From this, `run_isConsistent` says what can be seen from outside: the links of the body are a
   tree of complete nodes, every slot is used or released, and none is released twice; the variable
   and the table are those of the source, and the name has a prime for each derivative. Nothing is
   asked of the source but that it was parsed, and it makes no difference whether the function
   passes the check. -/
namespace Fluxion

/-- A step of the pipeline behind parsing. -/
inductive Transformation where
  | derivative
  | simplification
  deriving DecidableEq

/-- Simplification releases what it removes, and takes nothing. -/
theorem Arena.Fills.simplify {a : Arena} {L : Layout} (fills : a.Fills L)
    (shaped : L.tree.WellShaped) :
    ∃ M, a.simplify.2.Fills M ∧ M.tree = L.tree.simplify.2 := by
  obtain ⟨M, reduces, -, tree⟩ :=
    fills.holds.stores.simplifyAll fills.holds.nodup_slots (.inr shaped)
  have after := reduces.fills fills
  rw [← fills.holds.postOrder_eq] at after
  exact ⟨M, after, tree⟩

namespace Function

open Arena

def transform (f : Function) : Transformation → Function
  | .derivative => f.derivative
  | .simplification => f.simplify

/-- Carries out transformations one after the other. -/
def run (f : Function) (steps : List Transformation) : Function := steps.foldl transform f

/-- The body uses every slot of its arena that is not released, for a well-shaped tree with
    parameters of the table. -/
def IsSound (f : Function) : Prop :=
  ∃ L, f.body.Fills L ∧ L.tree.WellShaped ∧ L.tree.EveryKind (Kind.IsBound f.variableName f.params)

variable {f : Function}

theorem constructive_isBound (variableName : String) (table : ParameterTable) :
    Kind.Constructive (Kind.IsBound variableName table) :=
  ⟨nofun, nofun⟩

theorem isSound_ofDefinition (d : Definition) : (ofDefinition d).IsSound := by
  obtain ⟨L, fills, tree⟩ := fills_body_ofDefinition d
  refine ⟨L, fills, ?_, ?_⟩
  · rw [tree]
    exact d.body.wellShaped_resolve d.variableName {}
  · rw [tree]
    exact d.body.isBound_resolve d.variableName {}

namespace IsSound

theorem wellFormed (sound : f.IsSound) : f.body.WellFormed := by
  obtain ⟨L, fills, shaped, -⟩ := sound
  exact ⟨L, fills.holds, shaped⟩

theorem isConsistent (sound : f.IsSound) : f.body.IsConsistent f.params.size := by
  obtain ⟨L, fills, shaped, bound⟩ := sound
  refine fills.isConsistent shaped (bound.mono fun kind bound index same => ?_)
  obtain ⟨name, entry, -⟩ := bound index same
  exact (List.getElem?_eq_some_iff.mp entry).1

/-! ## One transformation -/

/-- The derivative is stored in an arena of its own, which holds nothing else. -/
theorem derivative (sound : f.IsSound) : f.derivative.IsSound := by
  have formed := sound.wellFormed
  obtain ⟨L, fills, shaped, bound⟩ := sound
  obtain ⟨M, after, tree⟩ := fills_body_derivative f formed
  rw [fills.holds.tree_eq] at tree
  refine ⟨M, after, ?_, ?_⟩
  · rw [tree]
    exact Derivative.wellShaped_of shaped
  · rw [tree]
    exact Derivative.everyKind_of (constructive_isBound _ _) shaped bound

theorem simplify (sound : f.IsSound) : f.simplify.IsSound := by
  obtain ⟨L, fills, shaped, bound⟩ := sound
  obtain ⟨M, after, tree⟩ := fills.simplify shaped
  refine ⟨M, after, ?_, ?_⟩
  · rw [tree]
    exact shaped.simplify
  · rw [tree]
    exact Tree.EveryKind.simplify (constructive_isBound _ _) bound

theorem transform (sound : f.IsSound) (step : Transformation) : (f.transform step).IsSound := by
  cases step with
  | derivative => exact sound.derivative
  | simplification => exact sound.simplify

/-! ## Runs -/

theorem run (sound : f.IsSound) (steps : List Transformation) : (f.run steps).IsSound := by
  induction steps generalizing f with
  | nil => exact sound
  | cons step rest ih => exact ih (sound.transform step)

end IsSound

theorem variableName_run (f : Function) (steps : List Transformation) :
    (f.run steps).variableName = f.variableName := by
  induction steps generalizing f with
  | nil => rfl
  | cons step rest ih => exact (ih _).trans (by cases step <;> rfl)

theorem params_run (f : Function) (steps : List Transformation) :
    (f.run steps).params = f.params := by
  induction steps generalizing f with
  | nil => rfl
  | cons step rest ih => exact (ih _).trans (by cases step <;> rfl)

/-- A row of primes. -/
def primes (count : Nat) : String := String.ofList (List.replicate count '\'')

/-- Each derivative adds a prime, and simplification none. -/
theorem name_run (f : Function) (steps : List Transformation) :
    (f.run steps).name = f.name ++ primes (steps.count .derivative) := by
  induction steps generalizing f with
  | nil => simp [run, primes]
  | cons step rest ih =>
    have named : (f.run (step :: rest)).name =
        (f.transform step).name ++ primes (rest.count .derivative) := ih (f.transform step)
    rw [named]
    cases step with
    | derivative =>
      rw [List.count_cons_self, transform, derivative, derivativeName, String.append_assoc]
      simp [primes, List.replicate_succ]
    | simplification => rw [List.count_cons_of_ne (by decide)]; rfl

theorem isSound_of_parse {source : String} (parsed : parse source = .ok f) : f.IsSound := by
  obtain ⟨d, -, rfl⟩ := parse_eq_ok_iff.mp parsed
  exact isSound_ofDefinition d

/-- Whatever is derived and simplified of a parsed function, the links of its body are a tree
    of complete nodes, nothing is leaked or released twice, and the function has the variable,
    the parameters and, but for the primes, the name of the source. -/
theorem run_isConsistent {source : String} (parsed : parse source = .ok f)
    (steps : List Transformation) :
    (f.run steps).body.IsConsistent (f.run steps).params.size ∧
      (f.run steps).variableName = f.variableName ∧ (f.run steps).params = f.params ∧
      (f.run steps).name = f.name ++ primes (steps.count .derivative) :=
  ⟨((isSound_of_parse parsed).run steps).isConsistent, variableName_run f steps,
    params_run f steps, name_run f steps⟩

/-- The definition `f(x)=a*(1/x)`, whose product is fused to a quotient. -/
def reciprocalTimesParameter : Definition :=
  ⟨"f", "x", .binary .mul (.name "a" ⟨5, 6⟩)
    (.binary .div (.integer 1 ⟨8, 9⟩) (.name "x" ⟨10, 11⟩) ⟨8, 11⟩) ⟨5, 11⟩⟩

theorem run_isConsistent_reciprocalTimesParameter :
    ∃ f, parse "f(x)=a*(1/x)" = .ok f ∧ f.params.names = ["a"] ∧
      let g := f.run [.derivative, .simplification, .derivative]
      g.body.IsConsistent g.params.size ∧ g.variableName = "x" ∧ g.params = f.params ∧
        g.name = "f''" := by
  have read : Definition.parse "f(x)=a*(1/x)" = .ok reciprocalTimesParameter := by decide +kernel
  have parsed := parse_eq_ok_iff.mpr ⟨_, read, rfl⟩
  exact ⟨_, parsed, by decide +kernel,
    run_isConsistent parsed [.derivative, .simplification, .derivative]⟩

end Function
end Fluxion
