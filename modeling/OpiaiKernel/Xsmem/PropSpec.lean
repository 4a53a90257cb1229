import OpiaiKernel.Xsmem.PropOp
import Mathlib.Data.Finset.Erase
import Mathlib.Data.Finset.Insert
import Mathlib.Logic.Function.Basic

/-!
# What properties are for

A list of properties is a map from names to values.  A value belongs to one task
or to the tasks that hold it; a value that everyone has let go is gone.  The
operations on such a map say what a caller sees, without lists, links or counts.
-/

namespace OpiaiKernel.Xsmem

inductive PropOwner
  | task (pid : ℕ)
  | group (holders : Finset ℕ)
  deriving DecidableEq

structure Property where
  value : ℕ
  owner : PropOwner
  deriving DecidableEq

/-- The length that the caller gives is part of the name. -/
abbrev PropKey := ℕ × List UInt8

abbrev Props := PropKey → Option Property

/-- One holder lets go. -/
def Property.drop (uid : ℕ) (q : Property) : Option Property :=
  match q.owner with
  | .task _ => some q
  | .group holders =>
      if holders.erase uid = ∅ then none else some { q with owner := .group (holders.erase uid) }

def Property.add (uid : ℕ) (q : Property) : Property :=
  match q.owner with
  | .task _ => q
  | .group holders => { q with owner := .group (insert uid holders) }

namespace Props

def set (m : Props) (k : PropKey) (q : Option Property) : Props := Function.update m k q

/-- A task lets go of everything it holds. -/
def leave (m : Props) (uid : ℕ) : Props := fun k => (m k).bind (Property.drop uid)

/-- The end of what belongs to one task. -/
def endTask (m : Props) (pid : ℕ) : Props := fun k => (m k).filter fun q => q.owner ≠ .task pid

/-- What a caller sees of one operation. -/
def op (m : Props) (uid pid : ℕ) (arg : XsmPropOpArg) (env : PropEnv) :
    Except PropErr (Option ℕ) × Props :=
  match env.key with
  | none => (.error .EFAULT, m)
  | some key =>
      let k : PropKey := (arg.propLen, cstr key)
      if arg.op = XSMEM_PROP_OP_SET then
        match m k with
        | some _ => (.error .EEXIST, m)
        | none =>
            if env.kmallocProp = false then (.error .ENOMEM, m)
            else if arg.owner = XSMEM_PROP_OWNER_TASK_GRP then
              if env.kmallocNode = false then (.error .ENOMEM, m)
              else (.ok none, m.set k (some ⟨arg.value, .group {uid}⟩))
            else (.ok none, m.set k (some ⟨arg.value, .task pid⟩))
      else if arg.op = XSMEM_PROP_OP_GET then
        match m k with
        | none => (.error .ENOENT, m)
        | some q =>
            let reply := if env.putUser then .ok (some q.value) else .error .EFAULT
            match q.owner with
            | .task _ => (reply, m)
            | .group holders =>
                if uid ∉ holders ∧ env.kmallocNode = false then (.error .ENOMEM, m)
                else (reply, m.set k (some (q.add uid)))
      else
        match m k with
        | none => (.error .ENOENT, m)
        | some q =>
            match q.owner with
            | .task creator =>
                if creator ≠ pid then (.error .EFAULT, m) else (.ok none, m.set k none)
            | .group holders =>
                if uid ∉ holders then (.error .EFAULT, m) else (.ok none, m.set k (q.drop uid))

end Props

/-! ## The lists as a map -/

def XsmProp.key (prop : XsmProp) : PropKey := (prop.propLen, prop.name)

def holders (nodes : List PropNode) (a : ℕ) : Finset ℕ :=
  ((nodes.filter fun node => a ∈ node.taskPropHead).map PropNode.task).toFinset

def XsmProp.property (nodes : List PropNode) (prop : XsmProp) : Property :=
  { value := prop.value
    owner :=
      if prop.owner = XSMEM_PROP_OWNER_TASK_GRP then .group (holders nodes prop.addr)
      else .task prop.createPid }

/-- What the lists say to a caller. -/
def props (nodes : List PropNode) (head : List XsmProp) : Props :=
  fun k => (Keyed.get XsmProp.key k head).map (XsmProp.property nodes)

@[simp] theorem mem_holders {nodes : List PropNode} {a uid : ℕ} :
    uid ∈ holders nodes a ↔ ∃ node ∈ nodes, a ∈ node.taskPropHead ∧ node.task = uid := by
  simp [holders, and_assoc]

theorem mem_holders_cons {node : PropNode} {nodes : List PropNode} {a uid : ℕ} :
    uid ∈ holders (node :: nodes) a ↔
      (a ∈ node.taskPropHead ∧ node.task = uid) ∨ uid ∈ holders nodes a := by
  simp

theorem holders_perm {nodes nodes' : List PropNode} (h : nodes.Perm nodes') (a : ℕ) :
    holders nodes a = holders nodes' a := by
  ext uid
  simp [h.mem_iff]

theorem props_perm {nodes nodes' : List PropNode} (h : nodes.Perm nodes') (head : List XsmProp) :
    props nodes head = props nodes' head := by
  have hprop : XsmProp.property nodes = XsmProp.property nodes' := by
    funext p
    simp only [XsmProp.property, holders_perm h]
  funext k
  rw [props, props, hprop]

namespace Props

variable {m : Props} {k : PropKey} {uid : ℕ}

@[simp] theorem set_self (q : Option Property) : m.set k q k = q := Function.update_self ..

theorem set_ne {j : PropKey} (q : Option Property) (h : j ≠ k) : m.set k q j = m j :=
  Function.update_of_ne h ..

/-- Letting go of one property first makes no difference to letting go of all. -/
theorem leave_set_drop (m : Props) (k : PropKey) (uid : ℕ) :
    (m.set k ((m k).bind (Property.drop uid))).leave uid = m.leave uid := by
  funext j
  by_cases hj : j = k
  · subst hj
    simp only [leave, set_self]
    cases m j with
    | none => rfl
    | some q =>
        cases hq : q.owner with
        | task pid => simp [Property.drop, hq]
        | group holders =>
            by_cases hemp : holders.erase uid = ∅
            · simp [Property.drop, hq, hemp]
            · simp [Property.drop, hq, hemp]
  · simp only [leave, set_ne _ hj]

end Props

end OpiaiKernel.Xsmem
