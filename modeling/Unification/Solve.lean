import Unification.Goal

namespace Unification

inductive Event where
  | bound (v : Variable) (t : Term)
  | rejected (v : Variable) (t : Term)

structure Trail where
  bindings : Bindings
  log : List Event

namespace Trail

def start (s : Bindings) : Trail := ⟨s, []⟩

def assign (tr : Trail) (v : Variable) (t : Term) : Trail :=
  ⟨tr.bindings.insert v t, tr.log ++ [.bound v t]⟩

def refuse (tr : Trail) : Clash → Trail
  | .rejected v t => { tr with log := tr.log ++ [.rejected v t] }
  | _ => tr

end Trail

inductive Result where
  | done (tr : Trail)
  | clash (why : Clash) (tr : Trail)

def Result.trail : Result → Trail
  | done tr => tr
  | clash _ tr => tr

def Result.succeeded : Result → Bool
  | done _ => true
  | clash _ _ => false

def solveAll (run : Goal → Trail → Option Result) : List Goal → Trail → Option Result
  | [], tr => some (.done tr)
  | g :: gs, tr =>
    match run g tr with
    | some (.done tr') => solveAll run gs tr'
    | r => r

def solve (req : Requirements) (cfg : Config) : Nat → Goal → Trail → Option Result
  | 0, _, _ => none
  | depth + 1, g, tr =>
    match g.step req cfg tr.bindings with
    | .reduce gs => solveAll (solve req cfg depth) gs tr
    | .assign v t => some (.done (tr.assign v t))
    | .clash why => some (.clash why (tr.refuse why))

theorem solveAll_mono {run run' : Goal → Trail → Option Result}
    (h : ∀ g tr r, run g tr = some r → run' g tr = some r) {gs : List Goal} {tr : Trail} {r : Result}
    (hr : solveAll run gs tr = some r) : solveAll run' gs tr = some r := by
  induction gs generalizing tr with
  | nil => exact hr
  | cons g gs ih =>
    simp only [solveAll] at hr ⊢
    cases hg : run g tr with
    | none => simp [hg] at hr
    | some x =>
      rw [h g tr x hg]
      rw [hg] at hr
      cases x with
      | done tr' => exact ih hr
      | clash why tr' => exact hr

theorem solveAll_append (run : Goal → Trail → Option Result) (gs hs : List Goal) (tr : Trail) :
    solveAll run (gs ++ hs) tr =
      match solveAll run gs tr with
      | some (.done tr') => solveAll run hs tr'
      | r => r := by
  induction gs generalizing tr with
  | nil => rfl
  | cons g gs ih =>
    simp only [List.cons_append, solveAll]
    cases hg : run g tr with
    | none => rfl
    | some x =>
      cases x with
      | done tr' => exact ih tr'
      | clash why tr' => rfl

theorem solve_mono (req : Requirements) (cfg : Config) {m n : Nat} (hmn : m ≤ n) {g : Goal}
    {tr : Trail} {r : Result} (hr : solve req cfg m g tr = some r) :
    solve req cfg n g tr = some r := by
  induction m generalizing n g tr r with
  | zero => simp [solve] at hr
  | succ m ih =>
    obtain ⟨n, rfl⟩ : ∃ k, n = k + 1 := ⟨n - 1, by omega⟩
    simp only [solve] at hr ⊢
    cases hs : g.step req cfg tr.bindings with
    | reduce gs =>
      rw [hs] at hr
      exact solveAll_mono (fun _ _ _ h => ih (by omega) h) hr
    | assign v t => rw [hs] at hr; exact hr
    | clash why => rw [hs] at hr; exact hr

namespace Goal

def size : Goal → Nat
  | unify a b => a.size + b.size
  | bind _ t => t.size + 1
  | clash _ => 1

end Goal

def Bindings.weight (s : Bindings) : Nat := s.entries.foldr (fun e n => e.2.size + 1 + n) 0

/-- A depth that every run with an end keeps to. All terms that a run meets are among the `n` nodes
of the goal and the environment, so there are at most `2 * n * n` goals to reduce and `n` variables to
bind. A longer chain of reductions meets a goal again in the same environment, and then for ever. -/
def depthBound (s : Bindings) (g : Goal) : Nat :=
  let n := g.size + s.weight
  (2 * n * n + 1) * (n + 1) + 1

def run (req : Requirements) (cfg : Config) (s : Bindings) (g : Goal) : Option Result :=
  solve req cfg (depthBound s g) g (.start s)

end Unification
