import Mathlib.Logic.Basic

namespace RowPolicy

variable {σ ρ : Type}

inductive Command
  | select | insert | update | delete
  deriving DecidableEq, Repr

/-- A permissive policy for one command or, without a command, for all; its expressions read the
settings of a session and a row, and may be neither true nor false. -/
structure Policy (σ ρ : Type) where
  command : Option Command
  usingExpr : Option (σ → ρ → Option Bool)
  checkExpr : Option (σ → ρ → Option Bool)

def Policy.covers (p : Policy σ ρ) (c : Command) : Bool :=
  p.command = none || p.command = some c

/-- The policy lets a command at a row that is there. -/
def Policy.admits (p : Policy σ ρ) (s : σ) (r : ρ) : Bool :=
  p.usingExpr.any fun e => e s r = some true

/-- The policy lets a command write a row. -/
def Policy.accepts (p : Policy σ ρ) (s : σ) (r : ρ) : Bool :=
  (p.checkExpr.or p.usingExpr).any fun e => e s r = some true

structure Role where
  superuser : Bool
  bypassRls : Bool
  owner : Bool
  deriving DecidableEq, Repr

/-- A table with its policies. -/
structure Table (σ ρ : Type) where
  enabled : Bool
  forced : Bool
  policies : List (Policy σ ρ)

/-- The policies of the table hold for the role. -/
def Table.guards (t : Table σ ρ) (role : Role) : Bool :=
  t.enabled && !role.superuser && !role.bypassRls && (t.forced || !role.owner)

/-- Some policy for the command lets it at the row. -/
def Table.shows (t : Table σ ρ) (role : Role) (c : Command) (s : σ) (r : ρ) : Bool :=
  !t.guards role || t.policies.any fun p => p.covers c && p.admits s r

/-- Some policy for the command lets it write the row. -/
def Table.takes (t : Table σ ρ) (role : Role) (c : Command) (s : σ) (r : ρ) : Bool :=
  !t.guards role || t.policies.any fun p => p.covers c && p.accepts s r

def Table.canSelect (t : Table σ ρ) (role : Role) (s : σ) (r : ρ) : Bool :=
  t.shows role .select s r

def Table.canInsert (t : Table σ ρ) (role : Role) (s : σ) (r : ρ) : Bool :=
  t.takes role .insert s r

/-- An UPDATE finds the rows it changes with a condition on their columns, so it reads them. -/
def Table.canUpdate (t : Table σ ρ) (role : Role) (s : σ) (old new : ρ) : Bool :=
  t.shows role .select s old && t.shows role .update s old && t.takes role .update s new

def Table.canDelete (t : Table σ ρ) (role : Role) (s : σ) (r : ρ) : Bool :=
  t.shows role .select s r && t.shows role .delete s r

variable {t : Table σ ρ} {role : Role} {c : Command} {s : σ} {r : ρ} {b : Bool}

/-- If, for a command, every policy is true of a row only if `b` is and one is if `b` is, the
command sees the row exactly if `b` is. -/
theorem Table.shows_eq (hg : t.guards role = true)
    (hsound : ∀ p ∈ t.policies, p.covers c = true → p.admits s r = true → b = true)
    (hcomplete : b = true → ∃ p ∈ t.policies, p.covers c = true ∧ p.admits s r = true) :
    t.shows role c s r = b := by
  rw [Bool.eq_iff_iff]
  simp only [Table.shows, hg, Bool.not_true, Bool.false_or, List.any_eq_true, Bool.and_eq_true]
  constructor
  · intro h
    obtain ⟨p, hp, hc, ha⟩ := h
    exact hsound p hp hc ha
  · exact hcomplete

theorem Table.takes_eq (hg : t.guards role = true)
    (hsound : ∀ p ∈ t.policies, p.covers c = true → p.accepts s r = true → b = true)
    (hcomplete : b = true → ∃ p ∈ t.policies, p.covers c = true ∧ p.accepts s r = true) :
    t.takes role c s r = b := by
  rw [Bool.eq_iff_iff]
  simp only [Table.takes, hg, Bool.not_true, Bool.false_or, List.any_eq_true, Bool.and_eq_true]
  constructor
  · intro h
    obtain ⟨p, hp, hc, ha⟩ := h
    exact hsound p hp hc ha
  · exact hcomplete

end RowPolicy
