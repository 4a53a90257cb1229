import OpiaiKernel.Lib.Keyed
import Mathlib.Data.Int.Notation

/-!
# Operations on properties

A task publishes a value under a name, for every task or for the tasks of a
pool.  A property of a task belongs to its creator; a property of the task group
is held by every task of the pool that has set or read it, and `refcnt` counts
the nodes that link it.

The functions are translated from `xsmem_prop.c` under their own names.  An
operation works on one list of properties and on the node of the caller in the
pool, which is `none` for the global list.  Addresses are not used again, so that
a stale pointer would be seen as one; a pointer that is dereferenced without
being there ends the operation with `none`.  The outcomes of the user copies and
of `kmalloc` are arguments.
-/

namespace OpiaiKernel.Xsmem

inductive PropErr
  | EFAULT
  | ENOMEM
  | EEXIST
  | ENOENT
  | EINVAL
  | ENODEV
  deriving DecidableEq

def PROP_NAME_MAX_LEN : ℕ := 128

def XSMEM_PROP_OP_SET : ℤ := 0

def XSMEM_PROP_OP_GET : ℤ := 1

def XSMEM_PROP_OWNER_TASK : ℤ := 0

def XSMEM_PROP_OWNER_TASK_GRP : ℤ := 1

/-- The name is kept up to its terminator: `strncmp` reads no byte behind it. -/
structure XsmProp where
  addr : ℕ
  name : List UInt8
  propLen : ℕ
  owner : ℤ
  createPid : ℕ
  refcnt : ℤ
  value : ℕ
  deriving DecidableEq

/-- What the properties need of a `struct xsm_task_pool_node`: its task, its pool
and the addresses linked by `task_prop_head`. -/
structure PropNode where
  task : ℕ
  pool : ℕ
  taskPropHead : List ℕ
  deriving DecidableEq

structure XsmPropOpArg where
  prop : ℕ
  propLen : ℕ
  owner : ℤ
  op : ℤ
  value : ℕ
  deriving DecidableEq

/-- What the environment decides during one operation: the bytes of the key, or
a fault, the two allocations and the write of the value. -/
structure PropEnv where
  key : Option (List UInt8)
  kmallocProp : Bool
  kmallocNode : Bool
  putUser : Bool
  deriving DecidableEq

/-! ## Names -/

/-- The bytes before the terminator. -/
def cstr (key : List UInt8) : List UInt8 := key.takeWhile (· ≠ 0)

/-- Whether `strncmp` finds two strings equal; a list that has ended reads as
its terminator. -/
def strncmpEq : ℕ → List UInt8 → List UInt8 → Bool
  | 0, _, _ => true
  | n + 1, a, b =>
      a.headD 0 == b.headD 0 && (a.headD 0 == 0 || strncmpEq n a.tail b.tail)

@[simp] theorem cstr_nil : cstr [] = [] := rfl

theorem cstr_cons (a : UInt8) (l : List UInt8) :
    cstr (a :: l) = if a = 0 then [] else a :: cstr l := by
  by_cases h : a = 0 <;> simp [cstr, h]

theorem length_cstr_le (key : List UInt8) : (cstr key).length ≤ key.length :=
  List.Sublist.length_le (List.takeWhile_sublist _)

theorem cstr_cstr (key : List UInt8) : cstr (cstr key) = cstr key := by
  induction key with
  | nil => rfl
  | cons a l ih =>
      rw [cstr_cons]
      split
      · rfl
      · rename_i h
        rw [cstr_cons, if_neg h, ih]

/-- Over as many bytes as the longer string has, `strncmp` compares the strings. -/
theorem strncmpEq_iff {n : ℕ} {a b : List UInt8} (ha : a.length ≤ n) (hb : b.length ≤ n) :
    strncmpEq n a b = true ↔ cstr a = cstr b := by
  induction n generalizing a b with
  | zero => simp [strncmpEq, List.length_eq_zero_iff.mp (Nat.le_zero.mp ha),
      List.length_eq_zero_iff.mp (Nat.le_zero.mp hb)]
  | succ n ih =>
      cases a with
      | nil =>
          cases b with
          | nil => simp [strncmpEq]
          | cons y b =>
              by_cases hy : y = 0
              · simp [strncmpEq, cstr_cons, hy]
              · simp [strncmpEq, cstr_cons, hy, Ne.symm hy]
      | cons x a =>
          cases b with
          | nil => by_cases hx : x = 0 <;> simp [strncmpEq, cstr_cons, hx]
          | cons y b =>
              have hrec := ih (Nat.le_of_succ_le_succ ha) (Nat.le_of_succ_le_succ hb)
              by_cases hx : x = 0
              · by_cases hy : y = 0
                · simp [strncmpEq, cstr_cons, hx, hy]
                · simp [strncmpEq, cstr_cons, hx, hy, Ne.symm hy]
              · by_cases hxy : x = y
                · subst hxy
                  simp [strncmpEq, cstr_cons, hx, hrec]
                · by_cases hy : y = 0 <;> simp [strncmpEq, cstr_cons, hx, hy, hxy]

/-! ## The operations -/

def xsmemAddPropToTask (node : PropNode) (prop : XsmProp) (kmalloc : Bool) :
    Except PropErr Unit × PropNode × XsmProp :=
  if prop.addr ∈ node.taskPropHead then (.ok (), node, prop)
  else if kmalloc = false then (.error .ENOMEM, node, prop)
  else
    (.ok (), { node with taskPropHead := node.taskPropHead ++ [prop.addr] },
      { prop with refcnt := prop.refcnt + 1 })

/-- What an operation works on: the list of properties it was sent to, the node
of the caller in the pool and the next address. -/
structure PropView where
  head : List XsmProp
  node : Option PropNode
  nextProp : ℕ

/-- The property is appended to the list by the caller. -/
def xsmemPoolPropAlloc (pid : ℕ) (v : PropView) (arg : XsmPropOpArg) (key : List UInt8)
    (env : PropEnv) : Option (Except PropErr XsmProp × PropView) :=
  if env.kmallocProp = false then some (.error .ENOMEM, v)
  else if PROP_NAME_MAX_LEN ≤ (cstr key).length then some (.error .EFAULT, v)
  else
    let prop : XsmProp :=
      { addr := v.nextProp, name := cstr key, propLen := arg.propLen, owner := arg.owner
        createPid := pid, refcnt := 0, value := arg.value }
    let v := { v with nextProp := v.nextProp + 1 }
    if arg.owner = XSMEM_PROP_OWNER_TASK_GRP then
      match v.node with
      | none => none
      | some node =>
          match xsmemAddPropToTask node prop env.kmallocNode with
          | (.error e, node, _) => some (.error e, { v with node := some node })
          | (.ok _, node, prop) => some (.ok prop, { v with node := some node })
    else some (.ok prop, v)

def xsmemPoolPropFree (head : List XsmProp) (prop : XsmProp) : List XsmProp :=
  Keyed.remove XsmProp.addr prop.addr head

/-- `prop->refcnt--`, and the free of a property that no node links any more. -/
def xsmemPropPut (head : List XsmProp) (prop : XsmProp) : List XsmProp :=
  if prop.refcnt - 1 ≤ 0 then xsmemPoolPropFree head prop
  else Keyed.modify XsmProp.addr prop.addr (fun p => { p with refcnt := p.refcnt - 1 }) head

def xsmemPoolPropDel (pid : ℕ) (v : PropView) (prop : XsmProp) :
    Option (Except PropErr Unit × PropView) :=
  if prop.owner ≠ XSMEM_PROP_OWNER_TASK_GRP then
    if prop.createPid ≠ pid then some (.error .EFAULT, v)
    else some (.ok (), { v with head := xsmemPoolPropFree v.head prop })
  else
    match v.node with
    | none => none
    | some node =>
        if prop.addr ∉ node.taskPropHead then some (.error .EFAULT, v)
        else
          some (.ok (),
            { v with
              node := some { node with taskPropHead := node.taskPropHead.erase prop.addr }
              head := xsmemPropPut v.head prop })

/-- The search of the list for a name. -/
def propFind (head : List XsmProp) (propLen : ℕ) (key : List UInt8) : Option XsmProp :=
  head.find? fun tmp => propLen = tmp.propLen ∧ strncmpEq tmp.propLen key tmp.name = true

/-- The value is what a `GET` writes to the caller.  Every number that is neither
`SET` nor `GET` deletes. -/
def xsmemPoolPropOp (pid : ℕ) (v : PropView) (arg : XsmPropOpArg) (env : PropEnv) :
    Option (Except PropErr (Option ℕ) × PropView) :=
  match env.key with
  | none => some (.error .EFAULT, v)
  | some key =>
      let prop := propFind v.head arg.propLen key
      if arg.op = XSMEM_PROP_OP_SET then
        match prop with
        | some _ => some (.error .EEXIST, v)
        | none =>
            match xsmemPoolPropAlloc pid v arg key env with
            | none => none
            | some (.error e, v) => some (.error e, v)
            | some (.ok prop, v) => some (.ok none, { v with head := v.head ++ [prop] })
      else if arg.op = XSMEM_PROP_OP_GET then
        match prop with
        | none => some (.error .ENOENT, v)
        | some prop =>
            if prop.owner = XSMEM_PROP_OWNER_TASK_GRP then
              match v.node with
              | none => none
              | some node =>
                  match xsmemAddPropToTask node prop env.kmallocNode with
                  | (.error e, _, _) => some (.error e, v)
                  | (.ok _, node, prop) =>
                      some (if env.putUser then .ok (some prop.value) else .error .EFAULT,
                        { v with
                          node := some node
                          head := Keyed.modify XsmProp.addr prop.addr (fun _ => prop) v.head })
            else some (if env.putUser then .ok (some prop.value) else .error .EFAULT, v)
      else
        match prop with
        | none => some (.error .ENOENT, v)
        | some prop =>
            match xsmemPoolPropDel pid v prop with
            | none => none
            | some (.error e, v) => some (.error e, v)
            | some (.ok _, v) => some (.ok none, v)

/-! ## The walks over the lists -/

/-- The node's links are put one by one; a link without its property ends the
walk with `none`. -/
def xsmemProcGrpPropDel : List ℕ → List XsmProp → Option (List XsmProp)
  | [], head => some head
  | a :: links, head =>
      match Keyed.get XsmProp.addr a head with
      | none => none
      | some prop => xsmemProcGrpPropDel links (xsmemPropPut head prop)

/-- `xsmem_task_prop_del` and `xsmem_pool_task_prop_clear`: the properties of the
task that belong to it alone. -/
def xsmemTaskPropDel (head : List XsmProp) (pid : ℕ) : List XsmProp :=
  head.filter fun prop => ¬ (prop.createPid = pid ∧ prop.owner = XSMEM_PROP_OWNER_TASK)

end OpiaiKernel.Xsmem
