/-!
# Stages of a deposit

The stages that the lifecycles are made of, their names, and the classes that a stage can belong
to.  A stage of the failure class stops its owner until a recovery; the terminal stage ends a
deposit.
-/

namespace ArchiveDeposit

section Stage

/-- A stage, in the order in which stages are listed. -/
inductive Stage where
  | undeposited
  | processing
  | processed
  | encapsulating
  | encapsulated
  | staging
  | staged
  | registering
  | registered
  | archiving
  | archived
  | deposited
  | notifying
  | priorityDepositing
  | depositing
  | validating
  | unvalidated
  | valid
  | invalid
  | preparing
  | failed
deriving DecidableEq, Repr

/-- What a stage tells about its owner, besides its place in a lifecycle. -/
inductive StageClass where
  /-- Nothing follows. -/
  | terminal
  /-- The deposit failed; it is counted, and recovered from. -/
  | failure
  /-- On the way into an encapsulation. -/
  | encapsulation
  /-- Being staged, registered or archived. -/
  | archival
  /-- Being validated. -/
  | validation
deriving DecidableEq, Repr

namespace StageClass

/-- Every class. -/
def all : List StageClass := [.terminal, .failure, .encapsulation, .archival, .validation]

end StageClass

namespace Stage

/-- Every stage, in order. -/
def all : List Stage :=
  [.undeposited, .processing, .processed, .encapsulating, .encapsulated, .staging, .staged,
    .registering, .registered, .archiving, .archived, .deposited, .notifying,
    .priorityDepositing, .depositing, .validating, .unvalidated, .valid, .invalid, .preparing,
    .failed]

/-- The name of a stage. -/
def name : Stage → String
  | .undeposited => "UNDEPOSITED"
  | .processing => "PROCESSING"
  | .processed => "PROCESSED"
  | .encapsulating => "ENCAPSULATING"
  | .encapsulated => "ENCAPSULATED"
  | .staging => "STAGING"
  | .staged => "STAGED"
  | .registering => "REGISTERING"
  | .registered => "REGISTERED"
  | .archiving => "ARCHIVING"
  | .archived => "ARCHIVED"
  | .deposited => "DEPOSITED"
  | .notifying => "NOTIFYING"
  | .priorityDepositing => "PRIORITY_DEPOSITING"
  | .depositing => "DEPOSITING"
  | .validating => "VALIDATING"
  | .unvalidated => "UNVALIDATED"
  | .valid => "VALID"
  | .invalid => "INVALID"
  | .preparing => "PREPARING"
  | .failed => "FAILED"

/-- The stage with exactly this name. -/
def ofName? (name : String) : Option Stage := all.find? fun s => s.name == name

/-- The place of a stage in the list of all. -/
def rank (s : Stage) : Nat := s.ctorIdx

/-- Whether a stage is in a class. -/
def isIn (s : Stage) : StageClass → Bool
  | .terminal => s == .deposited
  | .failure => s == .failed || s == .invalid
  | .encapsulation => s == .encapsulating || s == .encapsulated
  | .archival =>
      [Stage.staging, .staged, .registering, .registered, .archiving, .archived].contains s
  | .validation => [Stage.unvalidated, .validating, .valid, .invalid].contains s

/-- Whether a stage means that the deposit failed. -/
def isFailure (s : Stage) : Bool := s.isIn .failure

@[simp] theorem mem_all (s : Stage) : s ∈ all := by cases s <;> decide

/-- A stage is found by its name. -/
@[simp] theorem ofName?_name (s : Stage) : ofName? s.name = some s := by cases s <;> decide

/-- A stage stands in the list of all at its place. -/
theorem getElem?_rank (s : Stage) : all[s.rank]? = some s := by cases s <;> rfl

theorem rank_injective {s t : Stage} (h : s.rank = t.rank) : s = t := by
  have hs := getElem?_rank s
  rw [h, getElem?_rank t] at hs
  exact (Option.some.inj hs).symm

instance : Ord Stage := ⟨fun s t => compare s.rank t.rank⟩

instance : Std.TransOrd Stage where
  eq_swap {s t} := @Std.OrientedCmp.eq_swap _ compare _ s.rank t.rank
  isLE_trans {s t u} h k := @Std.TransCmp.isLE_trans _ compare _ s.rank t.rank u.rank h k

instance : Std.LawfulEqOrd Stage where
  eq_of_compare h := rank_injective (Std.LawfulEqOrd.eq_of_compare h)

end Stage

end Stage

end ArchiveDeposit
