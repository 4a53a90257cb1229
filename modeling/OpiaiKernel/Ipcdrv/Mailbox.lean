import OpiaiKernel.Lib.Machine
import Mathlib.Algebra.Ring.Nat
import Mathlib.Algebra.Ring.Int.Defs

/-!
# The receive side of a mailbox

An interrupt handler reads a message into a list and a tasklet passes the messages of
the list to the notifier.  While the list is full the interrupt stays disabled.  Which
of the two enables it again stands in one field without a lock: the handler writes it
when it finds the list full and reads it at its end, the tasklet reads and resets it
after each message.

The functions are translated from `hisi_mailbox.c`.  Each access to the field, each
section under the lock of the list and each change of the interrupt is one step.
-/

namespace OpiaiKernel.Ipcdrv

/-- The products with their own `hisi_rproc_adapt.h`. -/
inductive Product
  | cloud
  | cloudV2
  | mdc
  | mini
  | miniv3
  deriving DecidableEq, Repr

def MAX_FIFO_LEN : Product → UInt32
  | .cloudV2 => 384
  | .mdc => 32
  | _ => 128

def MAX_BUFFER_LEN : Product → ℕ
  | .cloudV2 => 96
  | _ => 32

abbrev IRQ_IRQ_NONE_RETRY_TIME : ℤ := 100

inductive EnableIrqStage
  | inInterrupt
  | inBh
  deriving DecidableEq, Repr

/-- The words of a message. -/
abbrev Mesg := List UInt32

/-- The next step of `mbox_interrupt`. -/
inductive HandlerPc
  | idle
  | disable (data : Mesg)
  | stage (data : Mesg)
  | recv (data : Mesg)
  | add (data : Mesg)
  | ack
  | schedule
  | read
  | enable
  deriving DecidableEq, Repr

/-- The next step of `mbox_rx_bh`. -/
inductive TaskletPc
  | idle
  | pop
  | notify (data : Mesg)
  | read
  | write
  | enable
  deriving DecidableEq, Repr

/-- The device with its two contexts, what was read from the hardware and what was
passed to the notifier. -/
structure MboxDevice where
  irqCnt : ℤ
  enableIrqStage : EnableIrqStage
  rxFifoFullCnt : UInt32
  recvDataList : List Mesg
  recvDataNum : UInt32
  depth : ℤ
  scheduled : Bool
  handler : HandlerPc
  tasklet : TaskletPc
  taken : List Mesg
  notified : List Mesg
  deriving DecidableEq

def MboxDevice.empty : MboxDevice where
  irqCnt := 0
  enableIrqStage := .inInterrupt
  rxFifoFullCnt := 0
  recvDataList := []
  recvDataNum := 0
  depth := 0
  scheduled := false
  handler := .idle
  tasklet := .idle
  taken := []
  notified := []

variable (p : Product)

/-- The section of `add_data_to_fifo`. -/
def addDataToFifo (mdev : MboxDevice) (data : Mesg) : MboxDevice :=
  if data.length * 4 ≠ MAX_BUFFER_LEN p then mdev
  else
    let mdev :=
      if mdev.recvDataNum ≥ MAX_FIFO_LEN p - 1 then
        { mdev with enableIrqStage := .inBh, rxFifoFullCnt := mdev.rxFifoFullCnt + 1 }
      else mdev
    { mdev with
      recvDataList := mdev.recvDataList ++ [data]
      recvDataNum := mdev.recvDataNum + 1 }

/-- The section of `get_data_from_fifo`. -/
def getDataFromFifo (mdev : MboxDevice) : Option Mesg × MboxDevice :=
  match mdev.recvDataList with
  | [] => (none, mdev)
  | data :: rest =>
      (some data, { mdev with recvDataList := rest, recvDataNum := mdev.recvDataNum - 1 })

/-- An interrupt for the message `data`, delivered while it is enabled. -/
def mboxInterrupt (mdev : MboxDevice) (data : Mesg) : Option MboxDevice :=
  if mdev.handler = .idle ∧ mdev.depth ≤ 0 then
    if mdev.irqCnt > IRQ_IRQ_NONE_RETRY_TIME then
      some { mdev with depth := mdev.depth + 1, irqCnt := 0 }
    else some { mdev with irqCnt := 0, handler := .disable data }
  else none

def handlerStep (mdev : MboxDevice) : Option MboxDevice :=
  match mdev.handler with
  | .idle => none
  | .disable data => some { mdev with depth := mdev.depth + 1, handler := .stage data }
  | .stage data => some { mdev with enableIrqStage := .inInterrupt, handler := .recv data }
  | .recv data => some { mdev with taken := mdev.taken ++ [data], handler := .add data }
  | .add data => some { addDataToFifo p mdev data with handler := .ack }
  | .ack => some { mdev with handler := .schedule }
  | .schedule => some { mdev with scheduled := true, handler := .read }
  | .read =>
      if mdev.enableIrqStage = .inInterrupt then some { mdev with handler := .enable }
      else some { mdev with handler := .idle }
  | .enable => some { mdev with depth := mdev.depth - 1, handler := .idle }

def mboxRxBh (mdev : MboxDevice) : Option MboxDevice :=
  match mdev.tasklet with
  | .idle =>
      if mdev.scheduled then some { mdev with scheduled := false, tasklet := .pop } else none
  | .pop =>
      match getDataFromFifo mdev with
      | (none, mdev) => some { mdev with tasklet := .idle }
      | (some data, mdev) => some { mdev with tasklet := .notify data }
  | .notify data => some { mdev with notified := mdev.notified ++ [data], tasklet := .read }
  | .read =>
      if mdev.enableIrqStage = .inBh then some { mdev with tasklet := .write }
      else some { mdev with tasklet := .pop }
  | .write => some { mdev with enableIrqStage := .inInterrupt, tasklet := .enable }
  | .enable => some { mdev with depth := mdev.depth - 1, tasklet := .pop }

inductive MboxAct
  | interrupt (data : Mesg)
  | handler
  | tasklet
  deriving DecidableEq, Repr

def mboxStep (mdev : MboxDevice) : MboxAct → Option MboxDevice
  | .interrupt data => mboxInterrupt mdev data
  | .handler => handlerStep p mdev
  | .tasklet => mboxRxBh mdev

def mboxMachine : Machine MboxDevice MboxAct where
  init mdev := mdev = .empty
  step := mboxStep p

/-- The handler stands between its section and its reading of the stage. -/
def HandlerPc.undecided : HandlerPc → Bool
  | .ack | .schedule | .read => true
  | _ => false

/-- The tasklet does not reset the stage in front of an undecided handler, and a message
fills a node. -/
def noOvertake (mdev : MboxDevice) : MboxAct → Bool
  | .interrupt _ => true
  | .handler =>
      match mdev.handler with
      | .add data => data.length * 4 = MAX_BUFFER_LEN p
      | _ => true
  | .tasklet => mdev.tasklet = .write → mdev.handler.undecided = false

/-- The message in the hands of the handler. -/
def HandlerPc.data : HandlerPc → List Mesg
  | .add data => [data]
  | _ => []

/-- The message in the hands of the tasklet. -/
def TaskletPc.data : TaskletPc → List Mesg
  | .notify data => [data]
  | _ => []

/-- The flow control of a mailbox. -/
structure MboxOk (mdev : MboxDevice) : Prop where
  depth : mdev.depth = 0 ∨ mdev.depth = 1
  enabled : mdev.handler = .idle → mdev.tasklet = .idle → mdev.scheduled = false → mdev.depth = 0
  num : mdev.recvDataNum.toNat = mdev.recvDataList.length
  order : mdev.taken =
    mdev.notified ++ mdev.tasklet.data ++ mdev.recvDataList ++ mdev.handler.data

/-- The tasklet has taken a message and has not yet decided on the interrupt. -/
def TaskletPc.holds : TaskletPc → Bool
  | .notify _ | .read | .write => true
  | _ => false

/-- The handler has disabled the interrupt. -/
def HandlerPc.owes : HandlerPc → Bool
  | .idle | .disable _ => false
  | _ => true

/-- Who will enable the interrupt. -/
structure MboxInv (mdev : MboxDevice) : Prop where
  irqCnt : mdev.irqCnt = 0
  write : mdev.tasklet = .write → mdev.enableIrqStage = .inBh
  enable : mdev.tasklet = .enable → mdev.enableIrqStage = .inInterrupt ∧ mdev.handler = .idle
  stage : mdev.enableIrqStage = .inBh → mdev.handler = .idle ∨ mdev.handler.undecided = true
  depth : mdev.depth =
    if mdev.handler.owes = true ∨ mdev.enableIrqStage = .inBh ∨ mdev.tasklet = .enable then 1
    else 0
  room : mdev.recvDataList.length + (if mdev.tasklet.holds then 1 else 0) ≤
    (MAX_FIFO_LEN p).toNat + if mdev.enableIrqStage = .inBh then 1 else 0
  full : mdev.enableIrqStage = .inBh → mdev.recvDataList ≠ [] ∨ mdev.tasklet.holds = true
  work : mdev.recvDataList ≠ [] →
    mdev.scheduled = true ∨ mdev.tasklet ≠ .idle ∨ mdev.handler = .ack ∨ mdev.handler = .schedule
  num : mdev.recvDataNum.toNat = mdev.recvDataList.length
  order : mdev.taken =
    mdev.notified ++ mdev.tasklet.data ++ mdev.recvDataList ++ mdev.handler.data

variable {p : Product} {mdev mdev' : MboxDevice}

theorem toNat_MAX_FIFO_LEN (p : Product) :
    (MAX_FIFO_LEN p - 1).toNat = (MAX_FIFO_LEN p).toNat - 1 ∧ 0 < (MAX_FIFO_LEN p).toNat ∧
      (MAX_FIFO_LEN p).toNat ≤ 384 := by
  cases p <;> decide

theorem EnableIrqStage.eq_inBh {stage : EnableIrqStage} (hne : stage ≠ .inInterrupt) :
    stage = .inBh := by
  cases stage with
  | inInterrupt => exact absurd rfl hne
  | inBh => rfl

theorem mboxInv_empty : MboxInv p .empty := by
  constructor <;>
    simp [MboxDevice.empty, TaskletPc.data, HandlerPc.data, TaskletPc.holds, HandlerPc.owes]

theorem MboxInv.interrupt (hinv : MboxInv p mdev) {data : Mesg}
    (hstep : mboxInterrupt mdev data = some mdev') : MboxInv p mdev' := by
  obtain ⟨hcnt, hwrite, henable, hstage, hdepth, hroom, hfull, hwork, hnum, horder⟩ := hinv
  rw [mboxInterrupt, hcnt, if_neg (show ¬(0 : ℤ) > IRQ_IRQ_NONE_RETRY_TIME by decide)] at hstep
  split_ifs at hstep with hguard
  obtain ⟨hidle, hzero⟩ := hguard
  obtain rfl := Option.some.inj hstep
  constructor <;> grind [TaskletPc.data, HandlerPc.data, TaskletPc.holds, HandlerPc.undecided,
    HandlerPc.owes]

theorem MboxInv.handler (hinv : MboxInv p mdev) (hok : noOvertake p mdev .handler = true)
    (hstep : handlerStep p mdev = some mdev') : MboxInv p mdev' := by
  obtain ⟨hcnt, hwrite, henable, hstage, hdepth, hroom, hfull, hwork, hnum, horder⟩ := hinv
  cases hpc : mdev.handler with
  | idle => simp [handlerStep, hpc] at hstep
  | disable data =>
      simp only [handlerStep, hpc, Option.some.injEq] at hstep
      subst hstep
      constructor <;> grind [TaskletPc.data, HandlerPc.data, HandlerPc.undecided, HandlerPc.owes]
  | stage data =>
      simp only [handlerStep, hpc, Option.some.injEq] at hstep
      subst hstep
      constructor <;> grind [TaskletPc.data, HandlerPc.data, HandlerPc.undecided, HandlerPc.owes]
  | recv data =>
      simp only [handlerStep, hpc, Option.some.injEq] at hstep
      subst hstep
      constructor <;> grind [TaskletPc.data, HandlerPc.data, HandlerPc.undecided, HandlerPc.owes]
  | add data =>
      simp only [handlerStep, hpc, Option.some.injEq] at hstep
      have hlen : data.length * 4 = MAX_BUFFER_LEN p := by simpa [noOvertake, hpc] using hok
      have hstage' : mdev.enableIrqStage = .inInterrupt := by
        cases hbh : mdev.enableIrqStage with
        | inInterrupt => rfl
        | inBh => simpa [hpc, HandlerPc.undecided] using hstage hbh
      have hmax := toNat_MAX_FIFO_LEN p
      have hnext : (mdev.recvDataNum + 1).toNat = mdev.recvDataList.length + 1 := by
        simp only [hstage', reduceCtorEq, if_false] at hroom
        rw [UInt32.toNat_add, hnum, UInt32.toNat_one, Nat.mod_eq_of_lt (by omega)]
      rw [addDataToFifo, if_neg (not_not.mpr hlen)] at hstep
      split_ifs at hstep with hfifo <;> subst hstep
      · constructor <;> grind [TaskletPc.data, HandlerPc.data, HandlerPc.undecided, HandlerPc.owes]
      · have hfifo' : mdev.recvDataList.length + 1 < (MAX_FIFO_LEN p).toNat := by
          rw [ge_iff_le, UInt32.not_le, UInt32.lt_iff_toNat_lt, hnum, hmax.1] at hfifo
          omega
        constructor <;> grind [TaskletPc.data, HandlerPc.data, HandlerPc.undecided, HandlerPc.owes]
  | ack =>
      simp only [handlerStep, hpc, Option.some.injEq] at hstep
      subst hstep
      constructor <;> grind [TaskletPc.data, HandlerPc.data, HandlerPc.undecided, HandlerPc.owes]
  | schedule =>
      simp only [handlerStep, hpc, Option.some.injEq] at hstep
      subst hstep
      constructor <;> grind [TaskletPc.data, HandlerPc.data, HandlerPc.undecided, HandlerPc.owes]
  | read =>
      simp only [handlerStep, hpc] at hstep
      split_ifs at hstep with hread <;> obtain rfl := Option.some.inj hstep
      · constructor <;> grind [TaskletPc.data, HandlerPc.data, HandlerPc.undecided, HandlerPc.owes]
      · have hbh := EnableIrqStage.eq_inBh hread
        constructor <;> grind [TaskletPc.data, HandlerPc.data, HandlerPc.undecided, HandlerPc.owes]
  | enable =>
      simp only [handlerStep, hpc, Option.some.injEq] at hstep
      subst hstep
      constructor <;> grind [TaskletPc.data, HandlerPc.data, HandlerPc.undecided, HandlerPc.owes]

theorem MboxInv.tasklet (hinv : MboxInv p mdev) (hok : noOvertake p mdev .tasklet = true)
    (hstep : mboxRxBh mdev = some mdev') : MboxInv p mdev' := by
  obtain ⟨hcnt, hwrite, henable, hstage, hdepth, hroom, hfull, hwork, hnum, horder⟩ := hinv
  cases hpc : mdev.tasklet with
  | idle =>
      simp only [mboxRxBh, hpc] at hstep
      split_ifs at hstep
      obtain rfl := Option.some.inj hstep
      constructor <;> grind [TaskletPc.data, TaskletPc.holds]
  | pop =>
      cases hlist : mdev.recvDataList with
      | nil =>
          simp only [mboxRxBh, hpc, getDataFromFifo, hlist, Option.some.injEq] at hstep
          subst hstep
          constructor <;> grind [TaskletPc.data, TaskletPc.holds]
      | cons data rest =>
          simp only [mboxRxBh, hpc, getDataFromFifo, hlist, Option.some.injEq] at hstep
          subst hstep
          have hprev : (mdev.recvDataNum - 1).toNat = rest.length := by
            rw [hlist, List.length_cons] at hnum
            rw [UInt32.toNat_sub_of_le, hnum, UInt32.toNat_one, Nat.add_sub_cancel]
            rw [UInt32.le_iff_toNat_le, hnum, UInt32.toNat_one]
            omega
          constructor <;> grind [TaskletPc.data, TaskletPc.holds]
  | notify data =>
      simp only [mboxRxBh, hpc, Option.some.injEq] at hstep
      subst hstep
      constructor <;> grind [TaskletPc.data, TaskletPc.holds]
  | read =>
      simp only [mboxRxBh, hpc] at hstep
      split_ifs at hstep with hread <;> obtain rfl := Option.some.inj hstep
      · constructor <;> grind [TaskletPc.data, TaskletPc.holds]
      · constructor <;> grind [TaskletPc.data, TaskletPc.holds]
  | write =>
      simp only [mboxRxBh, hpc, Option.some.injEq] at hstep
      subst hstep
      have hidle : mdev.handler = .idle := by
        have hdecided : mdev.handler.undecided = false := by simpa [noOvertake, hpc] using hok
        simpa [hdecided] using hstage (hwrite hpc)
      constructor <;> grind [TaskletPc.data, TaskletPc.holds, HandlerPc.owes]
  | enable =>
      simp only [mboxRxBh, hpc, Option.some.injEq] at hstep
      subst hstep
      constructor <;> grind [TaskletPc.data, TaskletPc.holds, HandlerPc.owes]

theorem MboxInv.step (hinv : MboxInv p mdev) (act : MboxAct) (hok : noOvertake p mdev act = true)
    (hstep : mboxStep p mdev act = some mdev') : MboxInv p mdev' := by
  cases act with
  | interrupt data => exact hinv.interrupt hstep
  | handler => exact hinv.handler hok hstep
  | tasklet => exact hinv.tasklet hok hstep

theorem MboxInv.ok (hinv : MboxInv p mdev) : MboxOk mdev := by
  refine ⟨?_, ?_, hinv.num, hinv.order⟩
  · rw [hinv.depth]
    split_ifs
    · exact .inr rfl
    · exact .inl rfl
  · intro hidle htasklet hscheduled
    have hempty : mdev.recvDataList = [] := by
      by_contra hne
      simpa [hidle, htasklet, hscheduled] using hinv.work hne
    have hstage : mdev.enableIrqStage ≠ .inBh := by
      intro hbh
      simpa [hempty, htasklet, TaskletPc.holds] using hinv.full hbh
    rw [hinv.depth, if_neg]
    simp [hidle, htasklet, hstage, HandlerPc.owes]

/-- Where the tasklet never resets the stage in front of an undecided handler, the flow
control holds. -/
theorem mbox_flow_control
    (hs : (mboxMachine p).ReachIf (fun mdev act => noOvertake p mdev act = true) mdev) :
    MboxOk mdev := by
  have hinv : MboxInv p mdev := by
    apply hs.invariant
    · rintro mdev rfl
      exact mboxInv_empty
    · exact fun mdev act mdev' hinv hok hstep => hinv.step act hok hstep
  exact hinv.ok

/-- One message: the handler to its end, then the tasklet. -/
def oneMessage : List MboxAct :=
  .interrupt [0, 0, 0, 0, 0, 0, 0, 0] :: List.replicate 8 .handler ++ List.replicate 5 .tasklet

theorem mbox_flow_control_one :
    MboxOk ((mboxMachine .mdc).final .empty oneMessage) :=
  mbox_flow_control (p := .mdc)
    (.final (.start rfl) (by decide +kernel) (by decide +kernel))

/-- The handler finds the list full for the 32nd message; before it reads the stage, the
tasklet passes one message and enables the interrupt. -/
def overtaken : List MboxAct :=
  let interrupt := .interrupt [0, 0, 0, 0, 0, 0, 0, 0]
  (List.replicate 31 (interrupt :: List.replicate 8 .handler)).flatten ++
    interrupt :: List.replicate 4 .handler ++ List.replicate 6 .tasklet ++
    List.replicate 4 .handler

theorem mbox_enabled_twice :
    ∃ mdev, (mboxMachine .mdc).Reach mdev ∧ mdev.depth = -1 := by
  refine ⟨(mboxMachine .mdc).final .empty overtaken, ?_, ?_⟩
  · exact .final (.start rfl) (by decide +kernel)
  · decide +kernel

end OpiaiKernel.Ipcdrv
