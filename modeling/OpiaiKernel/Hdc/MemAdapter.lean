import OpiaiKernel.Hdc.HdcError
import OpiaiKernel.Hdc.RangeTree
import OpiaiKernel.Lib.Chunks
import Mathlib.Algebra.BigOperators.Group.List.Basic
import Mathlib.Data.List.Forall2
import Mathlib.Tactic.TypeStar

/-!
# The DMA list of a fast copy

Two regions, each a list of physical segments, are cut into DMA nodes that move the bytes
of a range of the first to a range of the second.  A node lies in one segment of each.
-/

namespace OpiaiKernel.Hdc.MemAdapter

open Chunks

def HDCDRV_MEM_MAX_LEN : ℕ := 512 * 1024 * 1024

/-- The size of the message buffer depends on `CFG_FEATURE_SIMPLIFY_MODE`; a
`struct hdcdrv_dma_mem` has 16 bytes. -/
def HDCDRV_MAX_DMA_NODE (simplifyMode : Bool) : ℕ :=
  ((if simplifyMode then 0x10000 else 0x100000) - 0x400) / 16

/-- A segment, `struct hdcdrv_mem_f`. -/
structure MemF where
  addr : UInt64
  len : UInt32
  deriving DecidableEq, Repr

structure FastMem where
  physAddrNum : UInt32
  allocLen : UInt32
  userVa : UInt64
  alignSize : UInt32
  registerInnerPageOffset : UInt32
  pageStartIdx : UInt32
  sendInnerPageOffset : UInt32
  mem : List MemF
  deriving DecidableEq, Repr

inductive DmaDirection
  | hostToDevice
  | deviceToHost
  deriving DecidableEq, Repr

structure DmaNode where
  srcAddr : UInt64
  dstAddr : UInt64
  size : UInt32
  direction : DmaDirection
  deriving DecidableEq, Repr

/-- The lengths of the segments from page `i` on, as `hdcdrv_fast_pin_register_mem` fills
them in: `n` pages are left and `totalLen` bytes are covered. -/
def pinLens (pageSize firstAvailLen allocLen : UInt32) : ℕ → ℕ → UInt32 → List UInt32
  | 0, _, _ => []
  | n + 1, i, totalLen =>
      let len := if i = 0 then (if firstAvailLen < allocLen then firstAvailLen else allocLen)
        else if n = 0 then allocLen - totalLen else pageSize
      len :: pinLens pageSize firstAvailLen allocLen n (i + 1) (totalLen + len)

/-- The place of the sent range in a region.  A region of `drvHdcMallocEx` has no page size
and is used from its start. -/
def updatePageStartIdx (f : FastMem) (sendAddrVa : UInt64) : Except HdcError FastMem :=
  if sendAddrVa = 0 ∨ f.userVa = 0 ∨ sendAddrVa < f.userVa then .error .err
  else if f.alignSize = 0 then .ok { f with pageStartIdx := 0, sendInnerPageOffset := 0 }
  else
    let pageStartIdx :=
      (sendAddrVa - (f.userVa - f.registerInnerPageOffset.toUInt64)).toUInt32 / f.alignSize
    let sendInnerPageOffset := (sendAddrVa % f.alignSize.toUInt64).toUInt32
    if pageStartIdx ≥ f.physAddrNum then .error .err
    else .ok { f with pageStartIdx, sendInnerPageOffset }

/-- One side of the merge: `len` bytes from `addr` are left of segment `i - 1`. -/
structure Cursor where
  i : ℕ
  addr : UInt64
  len : UInt32
  deriving DecidableEq, Repr

/-- The read of segment `i`, which fails outside the list. -/
def Cursor.next (mem : List MemF) (i : ℕ) : Option Cursor :=
  (mem[i]?).map fun m => ⟨i + 1, m.addr, m.len⟩

def startCursor (f : FastMem) : Option Cursor :=
  let offset := if f.pageStartIdx = 0 then f.sendInnerPageOffset - f.registerInnerPageOffset
    else f.sendInnerPageOffset
  (f.mem[f.pageStartIdx.toNat]?).map fun m =>
    ⟨f.pageStartIdx.toNat + 1, m.addr + offset.toUInt64, m.len - offset⟩

/-- What a call returns, `none` for `HDCDRV_OK`, and the nodes it has appended. -/
structure Adapted where
  error : Option HdcError
  nodes : List DmaNode
  deriving DecidableEq, Repr

def Adapted.push (node : DmaNode) (r : Adapted) : Adapted := { r with nodes := node :: r.nodes }

/-- The loop of `hdcdrv_mem_adapter` with room for the given number of nodes. -/
def adapterLoop (dir : DmaDirection) (src dst : List MemF) :
    ℕ → Cursor → Cursor → UInt32 → Option Adapted
  | room, s, d, totalLen =>
      if totalLen = 0 then some ⟨none, []⟩
      else
        match room with
        | 0 => some ⟨some .paraErr, []⟩
        | room + 1 =>
            if s.len = d.len then
              let srcLen := if totalLen < s.len then totalLen else s.len
              let node : DmaNode := ⟨s.addr, d.addr, srcLen, dir⟩
              if totalLen - srcLen = 0 then some ⟨none, [node]⟩
              else
                (Cursor.next src s.i).bind fun s => (Cursor.next dst d.i).bind fun d =>
                  (adapterLoop dir src dst room s d (totalLen - srcLen)).map (.push node)
            else if s.len < d.len then
              let srcLen := if totalLen < s.len then totalLen else s.len
              let node : DmaNode := ⟨s.addr, d.addr, srcLen, dir⟩
              if totalLen - srcLen = 0 then some ⟨none, [node]⟩
              else
                let d : Cursor := ⟨d.i, d.addr + srcLen.toUInt64, d.len - srcLen⟩
                (Cursor.next src s.i).bind fun s =>
                  (adapterLoop dir src dst room s d (totalLen - srcLen)).map (.push node)
            else
              let dstLen := if totalLen < d.len then totalLen else d.len
              let node : DmaNode := ⟨s.addr, d.addr, dstLen, dir⟩
              if totalLen - dstLen = 0 then some ⟨none, [node]⟩
              else
                let s : Cursor := ⟨s.i, s.addr + dstLen.toUInt64, s.len - dstLen⟩
                (Cursor.next dst d.i).bind fun d =>
                  (adapterLoop dir src dst room s d (totalLen - dstLen)).map (.push node)

/-- `none` where a segment outside a list would be read. -/
def hdcdrvMemAdapter (simplifyMode : Bool) (dir : DmaDirection) (src dst : FastMem)
    (nodeIdx : ℕ) (len : UInt32) : Option Adapted :=
  (startCursor src).bind fun s => (startCursor dst).bind fun d =>
    if len > dst.allocLen ∨ len > src.allocLen then some ⟨some .paraErr, []⟩
    else adapterLoop dir src.mem dst.mem (HDCDRV_MAX_DMA_NODE simplifyMode - nodeIdx) s d len

/-! ## The bytes of a region -/

/-- The bytes of a part of segment `i`, each with the number of its segment. -/
def piece (i : ℕ) (addr : UInt64) (n : ℕ) : List (ℕ × UInt64) :=
  (List.range n).map fun k => (i, addr + UInt64.ofNat k)

/-- The bytes of the segments from segment `i` on. -/
def segBytes : ℕ → List MemF → List (ℕ × UInt64)
  | _, [] => []
  | i, m :: ms => piece i m.addr m.len.toNat ++ segBytes (i + 1) ms

def Cursor.bytes (mem : List MemF) (c : Cursor) : List (ℕ × UInt64) :=
  piece (c.i - 1) c.addr c.len.toNat ++ segBytes c.i (mem.drop c.i)

/-- A byte of the source and the byte of the destination it goes to. -/
abbrev Transfer := (ℕ × UInt64) × (ℕ × UInt64)

/-- The segments of a transfer. -/
def segments (x : Transfer) : ℕ × ℕ := (x.1.1, x.2.1)

/-- The node moves these bytes, in their order. -/
def DmaNode.Moves (node : DmaNode) (c : List Transfer) : Prop :=
  c.map (fun x => (x.1.2, x.2.2)) =
    (List.range node.size.toNat).map fun k =>
      (node.srcAddr + UInt64.ofNat k, node.dstAddr + UInt64.ofNat k)

/-- The nodes move these bytes, in their order, each within one segment of either side. -/
def MovedBy (nodes : List DmaNode) (xs : List Transfer) : Prop :=
  ∃ chunks : List (List Transfer), List.Forall₂ DmaNode.Moves nodes chunks ∧
    chunks.flatten = xs ∧ ∀ c ∈ chunks, Uniform segments c

variable {dir : DmaDirection} {src dst mem : List MemF} {s d c : Cursor} {room i n m : ℕ}
  {addr : UInt64} {len totalLen : UInt32} {f f' : FastMem}

@[simp] theorem length_piece : (piece i addr n).length = n := by
  rw [piece, List.length_map, List.length_range]

theorem piece_add : piece i addr (n + m) =
    piece i addr n ++ piece i (addr + UInt64.ofNat n) m := by
  rw [piece, List.range_add, List.map_append, List.map_map]
  congr 1
  refine List.map_congr_left fun k _ => ?_
  rw [Function.comp_apply, UInt64.ofNat_add, UInt64.add_assoc]

theorem fst_of_mem_piece {x : ℕ × UInt64} (h : x ∈ piece i addr n) : x.1 = i := by
  obtain ⟨k, -, rfl⟩ := List.mem_map.mp h
  rfl

theorem length_segBytes : (segBytes i mem).length = (mem.map fun m => m.len.toNat).sum := by
  induction mem generalizing i with
  | nil => rfl
  | cons m mem ih =>
      rw [segBytes, List.length_append, length_piece, ih, List.map_cons, List.sum_cons]

theorem le_of_mem_segBytes {x : ℕ × UInt64} (h : x ∈ segBytes i mem) : i ≤ x.1 := by
  induction mem generalizing i with
  | nil => cases h
  | cons m mem ih =>
      rw [segBytes] at h
      rcases List.mem_append.mp h with h | h
      · exact (fst_of_mem_piece h).ge
      · exact Nat.le_of_succ_le (ih h)

theorem ofNat_toNat_eq_toUInt64 : UInt64.ofNat len.toNat = len.toUInt64 := by
  apply UInt64.toNat_inj.mp
  simp

/-! ## One step of the merge -/

/-- The cursor after `len` bytes. -/
def Cursor.advance (mem : List MemF) (c : Cursor) (len : UInt32) : Option Cursor :=
  if c.len = len then Cursor.next mem c.i
  else some ⟨c.i, c.addr + len.toUInt64, c.len - len⟩

/-- The size of the next node. -/
def nodeLen (s d : Cursor) (totalLen : UInt32) : UInt32 :=
  let len := if s.len ≤ d.len then s.len else d.len
  if totalLen < len then totalLen else len

theorem adapterLoop_zero (h : totalLen ≠ 0) :
    adapterLoop dir src dst 0 s d totalLen = some ⟨some .paraErr, []⟩ := by
  rw [adapterLoop, if_neg h]

theorem toNat_nodeLen (s d : Cursor) (totalLen : UInt32) :
    (nodeLen s d totalLen).toNat = min totalLen.toNat (min s.len.toNat d.len.toNat) := by
  unfold nodeLen
  by_cases hle : s.len ≤ d.len
  · rw [if_pos hle]
    rw [UInt32.le_iff_toNat_le] at hle
    by_cases hlt : totalLen < s.len
    · rw [if_pos hlt]
      rw [UInt32.lt_iff_toNat_lt] at hlt
      omega
    · rw [if_neg hlt]
      rw [UInt32.lt_iff_toNat_lt] at hlt
      omega
  · rw [if_neg hle]
    rw [UInt32.le_iff_toNat_le] at hle
    by_cases hlt : totalLen < d.len
    · rw [if_pos hlt]
      rw [UInt32.lt_iff_toNat_lt] at hlt
      omega
    · rw [if_neg hlt]
      rw [UInt32.lt_iff_toNat_lt] at hlt
      omega

/-- The three cases of the loop are one step: a node of the smaller length, and each side
advanced by it. -/
theorem adapterLoop_succ (h : totalLen ≠ 0) :
    adapterLoop dir src dst (room + 1) s d totalLen =
      let len := nodeLen s d totalLen
      let node : DmaNode := ⟨s.addr, d.addr, len, dir⟩
      if totalLen - len = 0 then some ⟨none, [node]⟩
      else (s.advance src len).bind fun s => (d.advance dst len).bind fun d =>
        (adapterLoop dir src dst room s d (totalLen - len)).map (.push node) := by
  have hself : ∀ a : UInt32, a - a = 0 := fun a => UInt32.sub_self a
  rw [adapterLoop, if_neg h]
  dsimp only
  rcases Nat.lt_trichotomy s.len.toNat d.len.toNat with hlt | heq | hgt
  · have hne : s.len ≠ d.len := fun heq => by rw [heq] at hlt; omega
    have hsd : s.len < d.len := UInt32.lt_iff_toNat_lt.mpr hlt
    have hle : s.len ≤ d.len := UInt32.le_iff_toNat_le.mpr hlt.le
    rw [if_neg hne, if_pos hsd, nodeLen, if_pos hle]
    by_cases hclip : totalLen < s.len
    · rw [if_pos hclip, if_pos (hself _), if_pos (hself _)]
    · rw [if_neg hclip, Cursor.advance, if_pos rfl, Cursor.advance, if_neg (Ne.symm hne)]
      rfl
  · have hsd : s.len = d.len := UInt32.toNat_inj.mp heq
    have hle : s.len ≤ d.len := UInt32.le_iff_toNat_le.mpr heq.le
    rw [if_pos hsd, nodeLen, if_pos hle]
    by_cases hclip : totalLen < s.len
    · rw [if_pos hclip, if_pos (hself _), if_pos (hself _)]
    · rw [if_neg hclip, Cursor.advance, if_pos rfl, Cursor.advance, if_pos hsd.symm]
  · have hne : s.len ≠ d.len := fun heq => by rw [heq] at hgt; omega
    have hsd : ¬ s.len < d.len := fun hlt => by
      have := UInt32.lt_iff_toNat_lt.mp hlt
      omega
    have hle : ¬ s.len ≤ d.len := fun hle => by
      have := UInt32.le_iff_toNat_le.mp hle
      omega
    rw [if_neg hne, if_neg hsd, nodeLen, if_neg hle]
    by_cases hclip : totalLen < d.len
    · rw [if_pos hclip, if_pos (hself _), if_pos (hself _)]
    · rw [if_neg hclip, Cursor.advance, if_neg hne, Cursor.advance, if_pos rfl]
      rfl

theorem segBytes_drop_eq_nil (h : mem.length ≤ i) : segBytes i (mem.drop i) = [] := by
  rw [List.drop_eq_nil_of_le h]
  rfl

theorem next_bytes (h : Cursor.next mem i = some c) :
    c.bytes mem = segBytes i (mem.drop i) ∧ c.i = i + 1 ∧ ∃ m ∈ mem, c.len = m.len := by
  obtain ⟨m, hm, rfl⟩ := Option.map_eq_some_iff.mp h
  obtain ⟨hi, rfl⟩ := List.getElem?_eq_some_iff.mp hm
  refine ⟨?_, rfl, mem[i], List.getElem_mem hi, rfl⟩
  rw [Cursor.bytes, List.drop_eq_getElem_cons hi]
  rfl

/-- The bytes of a cursor from byte `n` of its segment on. -/
theorem bytes_cut (mem : List MemF) (c : Cursor) (len : UInt32) (h : len.toNat ≤ c.len.toNat) :
    c.bytes mem = piece (c.i - 1) c.addr len.toNat ++
      (⟨c.i, c.addr + len.toUInt64, c.len - len⟩ : Cursor).bytes mem := by
  have hsub : (c.len - len).toNat = c.len.toNat - len.toNat :=
    UInt32.toNat_sub_of_le _ _ (UInt32.le_iff_toNat_le.mpr h)
  have hadd : c.len.toNat = len.toNat + (c.len.toNat - len.toNat) := by omega
  rw [Cursor.bytes, Cursor.bytes, hadd, piece_add, ofNat_toNat_eq_toUInt64, hsub,
    List.append_assoc]

/-- A cursor that has more bytes than the node takes can go on, inside the list. -/
theorem exists_advance (c : Cursor) (len : UInt32) (hpos : ∀ m ∈ mem, 0 < m.len.toNat)
    (hle : len.toNat ≤ c.len.toNat)
    (hlt : len.toNat < (c.bytes mem).length) :
    ∃ c', c.advance mem len = some c' ∧
      c.bytes mem = piece (c.i - 1) c.addr len.toNat ++ c'.bytes mem ∧
      0 < c'.len.toNat ∧ c.i ≤ c'.i ∧ (c.len = len → ∀ x ∈ c'.bytes mem, c.i ≤ x.1) := by
  have hcut := bytes_cut mem c len hle
  by_cases hlen : c.len = len
  · -- the segment is used up
    have hrest : (⟨c.i, c.addr + len.toUInt64, c.len - len⟩ : Cursor).bytes mem =
        segBytes c.i (mem.drop c.i) := by
      have hzero : (c.len - len).toNat = 0 := by
        rw [hlen, UInt32.sub_self]
        rfl
      rw [Cursor.bytes, hzero]
      rfl
    rw [hrest] at hcut
    rw [hcut, List.length_append, length_piece] at hlt
    have hi : c.i < mem.length := by
      by_contra hi
      rw [segBytes_drop_eq_nil (Nat.le_of_not_lt hi), List.length_nil] at hlt
      omega
    have hnext : Cursor.next mem c.i = some ⟨c.i + 1, mem[c.i].addr, mem[c.i].len⟩ := by
      rw [Cursor.next, List.getElem?_eq_getElem hi]
      rfl
    obtain ⟨hbytes, -, -⟩ := next_bytes hnext
    refine ⟨_, by rw [Cursor.advance, if_pos hlen]; exact hnext, ?_,
      hpos _ (List.getElem_mem hi), Nat.le_succ c.i, fun _ x hx => ?_⟩
    · rw [hcut, hbytes]
    · rw [hbytes] at hx
      exact le_of_mem_segBytes hx
  · have hne : c.len.toNat ≠ len.toNat := fun h => hlen (UInt32.toNat_inj.mp h)
    have hsub : (c.len - len).toNat = c.len.toNat - len.toNat :=
      UInt32.toNat_sub_of_le _ _ (UInt32.le_iff_toNat_le.mpr hle)
    refine ⟨_, by rw [Cursor.advance, if_neg hlen], hcut, ?_, le_refl c.i,
      fun h => absurd h hlen⟩
    change 0 < (c.len - len).toNat
    omega

/-! ## The loop -/

/-- What the loop gives for the bytes that are left. -/
structure LoopOk (room : ℕ) (xs : List Transfer) (r : Adapted) : Prop where
  length_le : r.nodes.length ≤ room
  moved : r.error = none → MovedBy r.nodes xs
  error : r.error = none ∨ r.error = some .paraErr
  tooLong : r.error ≠ none → ¬ Chunked segments room xs

/-- The bytes of a node. -/
def nodeChunk (s d : Cursor) (n : ℕ) : List Transfer :=
  (piece (s.i - 1) s.addr n).zip (piece (d.i - 1) d.addr n)

@[simp] theorem length_nodeChunk : (nodeChunk s d n).length = n := by
  rw [nodeChunk, List.length_zip, length_piece, length_piece, min_self]

theorem moves_nodeChunk : (⟨s.addr, d.addr, len, dir⟩ : DmaNode).Moves
    (nodeChunk s d len.toNat) := by
  rw [DmaNode.Moves, nodeChunk, piece, piece, List.zip_map', List.map_map]
  rfl

theorem segments_of_mem_nodeChunk {x : Transfer} (h : x ∈ nodeChunk s d n) :
    segments x = (s.i - 1, d.i - 1) := by
  obtain ⟨a, b⟩ := x
  obtain ⟨ha, hb⟩ := List.of_mem_zip h
  exact Prod.ext (fst_of_mem_piece ha) (fst_of_mem_piece hb)

theorem uniform_nodeChunk : Uniform segments (nodeChunk s d n) :=
  Uniform.of_forall fun _ hx => segments_of_mem_nodeChunk hx

theorem MovedBy.cons {nodes : List DmaNode} {xs : List Transfer} (h : MovedBy nodes xs) :
    MovedBy (⟨s.addr, d.addr, len, dir⟩ :: nodes) (nodeChunk s d len.toNat ++ xs) := by
  obtain ⟨chunks, hmoves, rfl, hunif⟩ := h
  refine ⟨nodeChunk s d len.toNat :: chunks, .cons moves_nodeChunk hmoves, rfl, ?_⟩
  intro c hc
  rcases List.mem_cons.mp hc with rfl | hc
  · exact uniform_nodeChunk
  · exact hunif c hc

theorem movedBy_nil : MovedBy [] [] := ⟨[], .nil, rfl, fun c hc => by cases hc⟩

/-- The bytes that are left at two cursors. -/
def left (src dst : List MemF) (s d : Cursor) (n : ℕ) : List Transfer :=
  ((s.bytes src).zip (d.bytes dst)).take n

theorem left_eq_append (src dst : List MemF) {xs ys : List (ℕ × UInt64)} (hle : n ≤ m)
    (hs : s.bytes src = piece (s.i - 1) s.addr n ++ xs)
    (hd : d.bytes dst = piece (d.i - 1) d.addr n ++ ys) :
    left src dst s d m = nodeChunk s d n ++ (xs.zip ys).take (m - n) := by
  have hzip : (s.bytes src).zip (d.bytes dst) = nodeChunk s d n ++ xs.zip ys := by
    rw [hs, hd, List.zip_append (by rw [length_piece, length_piece])]
    rfl
  rw [left, hzip, List.take_append, length_nodeChunk,
    List.take_of_length_le (by rw [length_nodeChunk]; exact hle)]

/-- The loop takes the bytes that are left, in as few nodes as there are. -/
theorem adapterLoop_ok (hsrc : ∀ m ∈ src, 0 < m.len.toNat) (hdst : ∀ m ∈ dst, 0 < m.len.toNat)
    (dir : DmaDirection) (room : ℕ) (s d : Cursor) (totalLen : UInt32)
    (hs : totalLen.toNat ≤ (s.bytes src).length)
    (hd : totalLen.toNat ≤ (d.bytes dst).length)
    (hpos : totalLen ≠ 0 → 0 < s.len.toNat ∧ 0 < d.len.toNat) (hsi : 0 < s.i) (hdi : 0 < d.i) :
    ∃ r, adapterLoop dir src dst room s d totalLen = some r ∧
      LoopOk room (left src dst s d totalLen.toNat) r := by
  induction room generalizing s d totalLen with
  | zero =>
      by_cases hzero : totalLen = 0
      · subst hzero
        exact ⟨⟨none, []⟩, by rw [adapterLoop, if_pos rfl],
          ⟨le_refl 0, fun _ => movedBy_nil, .inl rfl, fun h => absurd rfl h⟩⟩
      · refine ⟨_, adapterLoop_zero hzero, ⟨le_refl 0, fun h => (by cases h), .inr rfl, ?_⟩⟩
        intro _ hchunked
        have hnil := congrArg List.length (eq_nil_of_chunked_zero hchunked)
        have hne : totalLen.toNat ≠ 0 := fun h => hzero (UInt32.toNat_inj.mp h)
        rw [left, List.length_take, List.length_zip, List.length_nil] at hnil
        omega
  | succ room ih =>
      by_cases hzero : totalLen = 0
      · subst hzero
        exact ⟨⟨none, []⟩, by rw [adapterLoop, if_pos rfl],
          ⟨Nat.zero_le _, fun _ => movedBy_nil, .inl rfl, fun h => absurd rfl h⟩⟩
      obtain ⟨hspos, hdpos⟩ := hpos hzero
      have hne : totalLen.toNat ≠ 0 := fun h => hzero (UInt32.toNat_inj.mp h)
      have hnode := toNat_nodeLen s d totalLen
      rw [adapterLoop_succ hzero]
      dsimp only
      generalize nodeLen s d totalLen = len at hnode ⊢
      have hsub : (totalLen - len).toNat = totalLen.toNat - len.toNat :=
        UInt32.toNat_sub_of_le _ _ (UInt32.le_iff_toNat_le.mpr (by omega))
      by_cases hlast : totalLen - len = 0
      · -- the last node
        have hlen : len.toNat = totalLen.toNat := by
          rw [hlast] at hsub
          have hz : (0 : UInt32).toNat = 0 := rfl
          omega
        have hleft := left_eq_append src dst hlen.le
          (bytes_cut src s len (by omega))
          (bytes_cut dst d len (by omega))
        rw [hlen, Nat.sub_self, List.take_zero, ← hlen] at hleft
        rw [if_pos hlast]
        refine ⟨_, rfl, ⟨Nat.succ_le_succ (Nat.zero_le room), fun _ => ?_, .inl rfl,
          fun h => absurd rfl h⟩⟩
        rw [← hlen, hleft]
        exact movedBy_nil.cons
      · have hmore : len.toNat < totalLen.toNat := by
          have hnz : (totalLen - len).toNat ≠ 0 := fun h => hlast (UInt32.toNat_inj.mp h)
          omega
        obtain ⟨s', hs', hsbytes, hslen, hsi', hscut⟩ :=
          exists_advance s len hsrc (by omega) (by omega)
        obtain ⟨d', hd', hdbytes, hdlen, hdi', hdcut⟩ :=
          exists_advance d len hdst (by omega) (by omega)
        have hsum := congrArg List.length hsbytes
        have hdum := congrArg List.length hdbytes
        rw [List.length_append, length_piece] at hsum hdum
        obtain ⟨r, hr, hok⟩ := ih s' d' (totalLen - len)
          (by omega) (by omega) (fun _ => ⟨hslen, hdlen⟩) (by omega) (by omega)
        have hleft := left_eq_append src dst hmore.le hsbytes hdbytes
        rw [← hsub] at hleft
        change left src dst s d totalLen.toNat =
          nodeChunk s d len.toNat ++ left src dst s' d' (totalLen - len).toNat at hleft
        rw [if_neg hlast, hs', hd']
        refine ⟨r.push ⟨s.addr, d.addr, len, dir⟩,
          by rw [Option.bind_some, Option.bind_some, hr, Option.map_some],
          ⟨Nat.succ_le_succ hok.length_le, fun h => ?_, hok.error, fun h hchunked => ?_⟩⟩
        · rw [hleft]
          exact (hok.moved h).cons
        · -- the next byte lies in another segment
          apply hok.tooLong h
          rw [hleft] at hchunked
          have hlength : 0 < (left src dst s' d' (totalLen - len).toNat).length := by
            rw [left, List.length_take, List.length_zip]
            omega
          obtain ⟨b, rest, hb⟩ := List.exists_cons_of_length_pos hlength
          obtain ⟨a, ha⟩ := List.exists_mem_of_length_pos
            (l := nodeChunk s d len.toNat) (by rw [length_nodeChunk]; omega)
          rw [hb] at hchunked ⊢
          refine hchunked.of_cut ha ?_
          have hmem : b ∈ (s'.bytes src).zip (d'.bytes dst) :=
            List.mem_of_mem_take (i := (totalLen - len).toNat) (by
              rw [left] at hb
              rw [hb]
              exact List.mem_cons_self)
          obtain ⟨hbs, hbd⟩ := List.of_mem_zip (a := b.1) (b := b.2) hmem
          rw [segments_of_mem_nodeChunk ha]
          intro heq
          have hfst : s.i - 1 = b.1.1 := congrArg Prod.fst heq
          have hsnd : d.i - 1 = b.2.1 := congrArg Prod.snd heq
          rcases (by omega : s.len.toNat = len.toNat ∨ d.len.toNat = len.toNat) with h | h
          · have := hscut (UInt32.toNat_inj.mp h) b.1 hbs
            omega
          · have := hdcut (UInt32.toNat_inj.mp h) b.2 hbd
            omega

/-! ## Where a copy starts -/

/-- The number of bytes in a list of segments. -/
def covered (mem : List MemF) : ℕ := (mem.map fun m => m.len.toNat).sum

/-- A region as `hdcdrv_fast_pin_register_mem` leaves it, one segment for each page.  A huge
page has at most 512 MiB. -/
structure FastMem.Pinned (f : FastMem) : Prop where
  pos : 0 < f.allocLen.toNat
  le_max : f.allocLen.toNat ≤ HDCDRV_MEM_MAX_LEN
  page_pos : 0 < f.alignSize.toNat
  page_le : f.alignSize.toNat ≤ 512 * 1024 * 1024
  offset : f.registerInnerPageOffset = (f.userVa % f.alignSize.toUInt64).toUInt32
  num : f.physAddrNum =
    (f.allocLen + f.registerInnerPageOffset + f.alignSize - 1) / f.alignSize
  lens : f.mem.map MemF.len = pinLens f.alignSize (f.alignSize - f.registerInnerPageOffset)
    f.allocLen f.physAddrNum.toNat 0 0

/-- A region of `drvHdcMallocEx`: any segments. -/
structure FastMem.Allocated (f : FastMem) : Prop where
  pos : 0 < f.allocLen.toNat
  noPage : f.alignSize = 0
  noOffset : f.registerInnerPageOffset = 0
  len_pos : ∀ m ∈ f.mem, 0 < m.len.toNat
  sum : covered f.mem = f.allocLen.toNat

/-- The lookup of `len` bytes from `va` has found the region `f` and left it as `f'`.  A
region without a page size is found by its start. -/
structure FastMem.Located (f f' : FastMem) (va : UInt64) (len : UInt32) : Prop where
  region : f.Pinned ∨ f.Allocated ∧ va = f.userVa
  found : FastNode.Contains ⟨f.userVa, f.allocLen⟩ va len
  update : updatePageStartIdx f va = .ok f'

/-- The bytes of a region from `va` on. -/
def FastMem.rangeBytes (f : FastMem) (va : UInt64) (len : UInt32) : List (ℕ × UInt64) :=
  ((segBytes 0 f.mem).drop (va.toNat - f.userVa.toNat)).take len.toNat

theorem covered_cons (m : MemF) (mem : List MemF) :
    covered (m :: mem) = m.len.toNat + covered mem := by
  rw [covered, List.map_cons, List.sum_cons]
  rfl

/-- The bytes behind the first `k` segments and part of the next. -/
theorem drop_segBytes {k off : ℕ} (hk : k < mem.length) (hoff : off ≤ (mem[k]).len.toNat) :
    (segBytes i mem).drop (covered (mem.take k) + off) =
      piece (i + k) ((mem[k]).addr + UInt64.ofNat off) ((mem[k]).len.toNat - off) ++
        segBytes (i + k + 1) (mem.drop (k + 1)) := by
  induction k generalizing i mem with
  | zero =>
      obtain ⟨m, mem, rfl⟩ := List.exists_cons_of_length_pos hk
      have hlen : m.len.toNat = off + (m.len.toNat - off) :=
        (Nat.add_sub_of_le hoff).symm
      rw [segBytes, hlen, piece_add, List.append_assoc, List.drop_left' (by simp [covered])]
      simp
  | succ k ih =>
      cases mem with
      | nil => cases hk
      | cons m mem =>
          have hdrop : covered ((m :: mem).take (k + 1)) + off =
              m.len.toNat + (covered (mem.take k) + off) := by
            rw [List.take_succ_cons, covered_cons, Nat.add_assoc]
          rw [segBytes, hdrop, ← List.drop_drop, List.drop_left' length_piece,
            ih (Nat.lt_of_succ_lt_succ hk) hoff]
          rw [show i + 1 + k = i + (k + 1) by omega]
          rfl

theorem covered_take_succ {k : ℕ} (hk : k < mem.length) :
    covered (mem.take (k + 1)) = covered (mem.take k) + (mem[k]).len.toNat := by
  rw [List.take_succ_eq_append_getElem hk, covered, List.map_append, List.sum_append]
  rfl

/-- Segments of one page each, the first and the last shortened: the segments before
segment `k` end `offset` bytes before the end of `k` pages. -/
structure Paged (pageSize offset allocLen : ℕ) (mem : List MemF) : Prop where
  sum : covered mem = allocLen
  len_pos : ∀ m ∈ mem, 0 < m.len.toNat
  before : ∀ k < mem.length, covered (mem.take k) = k * pageSize - offset

/-- The pages behind the first. -/
theorem pinLens_rest {pageSize firstAvailLen allocLen : UInt32} (hi : i ≠ 0)
    (hlo : totalLen.toNat + n * pageSize.toNat < allocLen.toNat)
    (hhi : allocLen.toNat ≤ totalLen.toNat + (n + 1) * pageSize.toNat)
    (hlens : mem.map MemF.len = pinLens pageSize firstAvailLen allocLen (n + 1) i totalLen)
    (hpage : 0 < pageSize.toNat) :
    Paged pageSize.toNat 0 (allocLen.toNat - totalLen.toNat) mem ∧ mem.length = n + 1 := by
  induction n generalizing mem i totalLen with
  | zero =>
      rw [pinLens, if_neg hi, if_pos rfl] at hlens
      obtain ⟨m, mem, rfl, hm, hrest⟩ := List.map_eq_cons_iff.mp hlens
      obtain rfl := List.map_eq_nil_iff.mp hrest
      have hsub : (allocLen - totalLen).toNat = allocLen.toNat - totalLen.toNat :=
        UInt32.toNat_sub_of_le _ _ (UInt32.le_iff_toNat_le.mpr (by omega))
      rw [← hm] at hsub
      refine ⟨⟨?_, fun x hx => ?_, fun k hk => ?_⟩, rfl⟩
      · rw [covered_cons, hsub]
        rfl
      · rw [List.mem_singleton.mp hx]
        omega
      · rw [List.length_singleton] at hk
        rw [Nat.lt_one_iff.mp hk, Nat.zero_mul]
        rfl
  | succ n ih =>
      rw [pinLens, if_neg hi, if_neg (Nat.succ_ne_zero n)] at hlens
      obtain ⟨m, mem, rfl, hm, hrest⟩ := List.map_eq_cons_iff.mp hlens
      have hbound := allocLen.toNat_lt
      rw [Nat.succ_mul] at hlo hhi
      have hadd : (totalLen + pageSize).toNat = totalLen.toNat + pageSize.toNat := by
        rw [UInt32.toNat_add, Nat.mod_eq_of_lt]
        omega
      obtain ⟨hpaged, hlength⟩ := ih (i := i + 1) (Nat.succ_ne_zero i) (by omega)
        (by omega) hrest
      refine ⟨⟨?_, fun x hx => ?_, fun k hk => ?_⟩, by rw [List.length_cons, hlength]⟩
      · rw [covered_cons, hpaged.sum, hm, hadd]
        omega
      · rcases List.mem_cons.mp hx with rfl | hx
        · rw [hm]
          exact hpage
        · exact hpaged.len_pos x hx
      · cases k with
        | zero =>
            rw [Nat.zero_mul]
            rfl
        | succ k =>
            rw [List.take_succ_cons, covered_cons, hm,
              hpaged.before k (Nat.lt_of_succ_lt_succ hk), Nat.succ_mul]
            omega

namespace FastMem.Pinned

theorem offset_eq (h : f.Pinned) :
    f.registerInnerPageOffset.toNat = f.userVa.toNat % f.alignSize.toNat := by
  have hlt := Nat.mod_lt f.userVa.toNat h.page_pos
  have hbound := f.alignSize.toNat_lt
  rw [h.offset, UInt64.toNat_toUInt32, UInt64.toNat_mod, UInt32.toNat_toUInt64,
    Nat.mod_eq_of_lt (by omega)]

theorem num_eq (h : f.Pinned) : f.physAddrNum.toNat =
    (f.allocLen.toNat + f.registerInnerPageOffset.toNat + f.alignSize.toNat - 1) /
      f.alignSize.toNat := by
  have hlt := Nat.mod_lt f.userVa.toNat h.page_pos
  have hoff := h.offset_eq
  have hmax : HDCDRV_MEM_MAX_LEN = 536870912 := rfl
  have hlen := h.le_max
  have hpage := h.page_le
  have hpos := h.page_pos
  have hone : (1 : UInt32).toNat = 1 := rfl
  have hadd : (f.allocLen + f.registerInnerPageOffset + f.alignSize).toNat =
      f.allocLen.toNat + f.registerInnerPageOffset.toNat + f.alignSize.toNat := by
    rw [UInt32.toNat_add, UInt32.toNat_add]
    omega
  rw [h.num, UInt32.toNat_div, UInt32.toNat_sub_of_le, hadd, hone]
  rw [UInt32.le_iff_toNat_le, hadd]
  omega

theorem paged (h : f.Pinned) :
    Paged f.alignSize.toNat f.registerInnerPageOffset.toNat f.allocLen.toNat f.mem ∧
      f.mem.length = f.physAddrNum.toNat := by
  have hoff : f.registerInnerPageOffset.toNat < f.alignSize.toNat := by
    rw [h.offset_eq]
    exact Nat.mod_lt _ h.page_pos
  have hpos := h.pos
  have hfirst : (f.alignSize - f.registerInnerPageOffset).toNat =
      f.alignSize.toNat - f.registerInnerPageOffset.toNat :=
    UInt32.toNat_sub_of_le _ _ (UInt32.le_iff_toNat_le.mpr hoff.le)
  have hnum := h.num_eq
  have hlens := h.lens
  -- the pages end in the last page of the region
  have hlo := Nat.div_mul_le_self
    (f.allocLen.toNat + f.registerInnerPageOffset.toNat + f.alignSize.toNat - 1)
    f.alignSize.toNat
  have hhi := Nat.lt_div_mul_add h.page_pos
    (a := f.allocLen.toNat + f.registerInnerPageOffset.toNat + f.alignSize.toNat - 1)
  rw [← hnum] at hlo hhi
  generalize f.physAddrNum.toNat = num at hlens hlo hhi ⊢
  cases num with
  | zero => omega
  | succ num =>
      rw [pinLens, if_pos rfl] at hlens
      obtain ⟨m, mem, hmem, hm, hrest⟩ := List.map_eq_cons_iff.mp hlens
      rw [hmem]
      rw [Nat.succ_mul] at hlo hhi
      cases num with
      | zero =>
          obtain rfl := List.map_eq_nil_iff.mp hrest
          have hall : m.len = f.allocLen := by
            rw [hm, if_neg]
            rw [UInt32.lt_iff_toNat_lt, hfirst]
            omega
          refine ⟨⟨?_, fun x hx => ?_, fun k hk => ?_⟩, rfl⟩
          · rw [covered_cons, hall]
            rfl
          · rw [List.mem_singleton.mp hx, hall]
            exact hpos
          · rw [List.length_singleton] at hk
            rw [Nat.lt_one_iff.mp hk, Nat.zero_mul, Nat.zero_sub]
            rfl
      | succ num =>
          rw [Nat.succ_mul] at hlo hhi
          have hnext : m.len = f.alignSize - f.registerInnerPageOffset := by
            rw [hm, if_pos]
            rw [UInt32.lt_iff_toNat_lt, hfirst]
            omega
          rw [← hm, hnext, UInt32.zero_add] at hrest
          obtain ⟨hpaged, hlength⟩ := pinLens_rest (i := 1) (n := num) Nat.one_ne_zero
            (by rw [hfirst]; omega) (by rw [hfirst, Nat.succ_mul]; omega) hrest h.page_pos
          refine ⟨⟨?_, fun x hx => ?_, fun k hk => ?_⟩, by rw [List.length_cons, hlength]⟩
          · rw [covered_cons, hpaged.sum, hnext, hfirst]
            omega
          · rcases List.mem_cons.mp hx with rfl | hx
            · rw [hnext, hfirst]
              omega
            · exact hpaged.len_pos x hx
          · cases k with
            | zero =>
                rw [Nat.zero_mul, Nat.zero_sub]
                rfl
            | succ k =>
                rw [List.take_succ_cons, covered_cons, hnext, hfirst,
                  hpaged.before k (Nat.lt_of_succ_lt_succ hk), Nat.succ_mul]
                omega

end FastMem.Pinned

/-- The offset of the first byte in its segment. -/
def FastMem.startOffset (f : FastMem) : UInt32 :=
  if f.pageStartIdx = 0 then f.sendInnerPageOffset - f.registerInnerPageOffset
  else f.sendInnerPageOffset

theorem startCursor_eq {k : ℕ} (hk : k < f.mem.length) (hidx : f.pageStartIdx.toNat = k)
    (hoff : f.startOffset.toNat ≤ (f.mem[k]).len.toNat) :
    ∃ c, startCursor f = some c ∧ 0 < c.i ∧
      c.bytes f.mem = (segBytes 0 f.mem).drop (covered (f.mem.take k) + f.startOffset.toNat) ∧
      c.len.toNat = (f.mem[k]).len.toNat - f.startOffset.toNat := by
  have hsub : ((f.mem[k]).len - f.startOffset).toNat =
      (f.mem[k]).len.toNat - f.startOffset.toNat :=
    UInt32.toNat_sub_of_le _ _ (UInt32.le_iff_toNat_le.mpr hoff)
  refine ⟨⟨k + 1, (f.mem[k]).addr + f.startOffset.toUInt64, (f.mem[k]).len - f.startOffset⟩,
    ?_, Nat.succ_pos k, ?_, hsub⟩
  · rw [startCursor, hidx, List.getElem?_eq_getElem hk]
    rfl
  · rw [drop_segBytes hk hoff, Cursor.bytes, hsub, Nat.zero_add, Nat.add_sub_cancel,
      ofNat_toNat_eq_toUInt64]

/-- What the adapter relies on for either side. -/
structure StartOk (f f' : FastMem) (va : UInt64) (len : UInt32) (c : Cursor) : Prop where
  start : startCursor f' = some c
  bytes : c.bytes f'.mem = (segBytes 0 f.mem).drop (va.toNat - f.userVa.toNat)
  index : 0 < c.i
  len_pos : len ≠ 0 → 0 < c.len.toNat
  mem : ∀ m ∈ f'.mem, 0 < m.len.toNat
  enough : len.toNat ≤ (c.bytes f'.mem).length
  allocLen : len ≤ f'.allocLen

variable {va : UInt64}

/-- A start in segment `k` that leaves the length inside the region. -/
theorem StartOk.of_segment {k : ℕ} (hmem : f'.mem = f.mem) (halloc : f'.allocLen = f.allocLen)
    (hpos : ∀ m ∈ f.mem, 0 < m.len.toNat) (hsum : covered f.mem = f.allocLen.toNat)
    (hfound : FastNode.Contains ⟨f.userVa, f.allocLen⟩ va len)
    (hk : k < f'.mem.length) (hidx : f'.pageStartIdx.toNat = k)
    (hstart : covered (f'.mem.take k) + f'.startOffset.toNat = va.toNat - f.userVa.toNat)
    (hlt : k + 1 < f'.mem.length → f'.startOffset.toNat < (f'.mem[k]).len.toNat) :
    ∃ c, StartOk f f' va len c := by
  obtain ⟨hle, hstop⟩ := hfound
  rw [FastNode.stop] at hstop
  dsimp only at hle hstop
  rw [← hmem] at hpos hsum
  have hsucc := covered_take_succ hk
  have hlast : ¬ k + 1 < f'.mem.length → covered (f'.mem.take (k + 1)) = f.allocLen.toNat := by
    intro h
    rw [List.take_of_length_le (Nat.le_of_not_lt h), hsum]
  have hoff : f'.startOffset.toNat ≤ (f'.mem[k]).len.toNat := by
    by_cases hmore : k + 1 < f'.mem.length
    · exact (hlt hmore).le
    · have := hlast hmore
      omega
  obtain ⟨c, hc, hi, hbytes, hclen⟩ := startCursor_eq hk hidx hoff
  rw [hstart] at hbytes
  refine ⟨c, hc, by rw [hbytes, hmem], hi, fun hne => ?_, hpos, ?_, ?_⟩
  · have hne : len.toNat ≠ 0 := fun h => hne (UInt32.toNat_inj.mp h)
    rw [hclen]
    by_cases hmore : k + 1 < f'.mem.length
    · have := hlt hmore
      omega
    · have := hlast hmore
      omega
  · rw [hbytes, List.length_drop, length_segBytes]
    change len.toNat ≤ covered f'.mem - _
    omega
  · rw [UInt32.le_iff_toNat_le, halloc]
    omega

theorem updatePageStartIdx_noPage (hpage : f.alignSize = 0)
    (h : updatePageStartIdx f va = .ok f') :
    f' = { f with pageStartIdx := 0, sendInnerPageOffset := 0 } := by
  rw [updatePageStartIdx] at h
  by_cases hbad : va = 0 ∨ f.userVa = 0 ∨ va < f.userVa
  · rw [if_pos hbad] at h
    cases h
  · rw [if_neg hbad, if_pos hpage] at h
    exact (Except.ok.inj h).symm

theorem updatePageStartIdx_page (hpage : f.alignSize ≠ 0)
    (h : updatePageStartIdx f va = .ok f') :
    let pageStartIdx :=
      (va - (f.userVa - f.registerInnerPageOffset.toUInt64)).toUInt32 / f.alignSize
    pageStartIdx < f.physAddrNum ∧ f' = { f with
      pageStartIdx, sendInnerPageOffset := (va % f.alignSize.toUInt64).toUInt32 } := by
  rw [updatePageStartIdx] at h
  dsimp only at h ⊢
  by_cases hbad : va = 0 ∨ f.userVa = 0 ∨ va < f.userVa
  · rw [if_pos hbad] at h
    cases h
  · rw [if_neg hbad, if_neg hpage] at h
    by_cases hidx : (va - (f.userVa - f.registerInnerPageOffset.toUInt64)).toUInt32 /
        f.alignSize ≥ f.physAddrNum
    · rw [if_pos hidx] at h
      cases h
    · rw [if_neg hidx] at h
      exact ⟨UInt32.not_le.mp hidx, (Except.ok.inj h).symm⟩

theorem startOk_pinned (h : f.Pinned) (hfound : FastNode.Contains ⟨f.userVa, f.allocLen⟩ va len)
    (hupdate : updatePageStartIdx f va = .ok f') : ∃ c, StartOk f f' va len c := by
  obtain ⟨hpaged, hlength⟩ := h.paged
  obtain ⟨hle, hstop⟩ := id hfound
  rw [FastNode.stop] at hstop
  dsimp only at hle hstop
  have hreg := h.offset_eq
  have hpage := h.page_pos
  have hmax := h.le_max
  have hpageLe := h.page_le
  have hbig : HDCDRV_MEM_MAX_LEN = 536870912 := rfl
  have hregLt := Nat.mod_lt f.userVa.toNat hpage
  have hregLe := Nat.mod_le f.userVa.toNat f.alignSize.toNat
  rw [← hreg] at hregLt hregLe
  have hnopage : f.alignSize ≠ 0 := fun h0 => by
    rw [h0] at hpage
    exact absurd hpage (Nat.lt_irrefl 0)
  -- the distance of the start from the first page
  have hbase : (f.userVa - f.registerInnerPageOffset.toUInt64).toNat =
      f.userVa.toNat - f.registerInnerPageOffset.toNat := by
    rw [UInt64.toNat_sub_of_le, UInt32.toNat_toUInt64]
    rw [UInt64.le_iff_toNat_le, UInt32.toNat_toUInt64]
    exact hregLe
  have hdist : (va - (f.userVa - f.registerInnerPageOffset.toUInt64)).toUInt32.toNat =
      va.toNat - f.userVa.toNat + f.registerInnerPageOffset.toNat := by
    rw [UInt64.toNat_toUInt32, UInt64.toNat_sub_of_le, hbase, Nat.mod_eq_of_lt] <;>
      first
        | (rw [UInt64.le_iff_toNat_le, hbase]; omega)
        | omega
  have hsend : (va % f.alignSize.toUInt64).toUInt32.toNat =
      (va.toNat - f.userVa.toNat + f.registerInnerPageOffset.toNat) % f.alignSize.toNat := by
    have hmod := Nat.mod_lt va.toNat hpage
    have hpages := Nat.div_add_mod f.userVa.toNat f.alignSize.toNat
    rw [UInt64.toNat_toUInt32, UInt64.toNat_mod, UInt32.toNat_toUInt64,
      Nat.mod_eq_of_lt (by omega)]
    have hva : va.toNat = f.alignSize.toNat * (f.userVa.toNat / f.alignSize.toNat) +
        (va.toNat - f.userVa.toNat + f.registerInnerPageOffset.toNat) := by omega
    conv_lhs => rw [hva]
    exact Nat.mul_add_mod _ _ _
  obtain ⟨hidx, rfl⟩ := updatePageStartIdx_page hnopage hupdate
  generalize hd : va.toNat - f.userVa.toNat + f.registerInnerPageOffset.toNat = dist at hdist hsend
  generalize hpi : (va - (f.userVa - f.registerInnerPageOffset.toUInt64)).toUInt32 /
    f.alignSize = pageStartIdx at hidx ⊢
  generalize (va % f.alignSize.toUInt64).toUInt32 = sendInnerPageOffset at hsend ⊢
  have hk : pageStartIdx.toNat = dist / f.alignSize.toNat := by
    rw [← hpi, UInt32.toNat_div, hdist]
  have hlt : pageStartIdx.toNat < f.mem.length := by
    rw [hlength]
    exact UInt32.lt_iff_toNat_lt.mp hidx
  have hdivmod := Nat.div_add_mod dist f.alignSize.toNat
  have hmod := Nat.mod_lt dist hpage
  rw [← hk, ← hsend, Nat.mul_comm] at hdivmod
  rw [← hsend] at hmod
  have hbefore := hpaged.before _ hlt
  have hoff : covered (f.mem.take pageStartIdx.toNat) +
      (if pageStartIdx = 0 then sendInnerPageOffset - f.registerInnerPageOffset
        else sendInnerPageOffset).toNat = va.toNat - f.userVa.toNat := by
    by_cases hzero : pageStartIdx = 0
    · have hz : pageStartIdx.toNat = 0 := by
        rw [hzero]
        rfl
      rw [hz, Nat.zero_mul] at hdivmod hbefore
      rw [if_pos hzero, hz, hbefore, UInt32.toNat_sub_of_le]
      · omega
      · rw [UInt32.le_iff_toNat_le]
        omega
    · have hone : 1 ≤ pageStartIdx.toNat := by
        by_contra h
        exact hzero (UInt32.toNat_inj.mp (Nat.lt_one_iff.mp (Nat.lt_of_not_le h)))
      have hfull := Nat.mul_le_mul_right f.alignSize.toNat hone
      rw [if_neg hzero, hbefore]
      omega
  refine StartOk.of_segment (k := pageStartIdx.toNat) rfl rfl hpaged.len_pos hpaged.sum hfound hlt
    rfl hoff fun hmore => ?_
  have hnext := hpaged.before _ hmore
  have hsucc := covered_take_succ hlt
  rw [Nat.succ_mul] at hnext
  change (if pageStartIdx = 0 then sendInnerPageOffset - f.registerInnerPageOffset
    else sendInnerPageOffset).toNat < (f.mem[pageStartIdx.toNat]).len.toNat
  omega

theorem startOk_allocated (h : f.Allocated) (hva : va = f.userVa)
    (hfound : FastNode.Contains ⟨f.userVa, f.allocLen⟩ va len)
    (hupdate : updatePageStartIdx f va = .ok f') : ∃ c, StartOk f f' va len c := by
  have hlt : 0 < f.mem.length := by
    by_contra hempty
    have hnil := List.length_eq_zero_iff.mp (Nat.eq_zero_of_not_pos hempty)
    have hsum := h.sum
    have hpos := h.pos
    rw [hnil] at hsum
    rw [← hsum] at hpos
    exact absurd hpos (Nat.lt_irrefl 0)
  obtain rfl := updatePageStartIdx_noPage h.noPage hupdate
  have hoff : (if (0 : UInt32) = 0 then 0 - f.registerInnerPageOffset else 0).toNat = 0 := by
    rw [if_pos rfl, h.noOffset]
    rfl
  refine StartOk.of_segment (k := 0) rfl rfl h.len_pos h.sum hfound hlt rfl ?_ fun _ => ?_
  · rw [hva, Nat.sub_self, List.take_zero, covered, List.map_nil, List.sum_nil, Nat.zero_add]
    exact hoff
  · exact hoff.trans_lt (h.len_pos _ (List.getElem_mem hlt))

theorem FastMem.Located.startOk (h : f.Located f' va len) : ∃ c, StartOk f f' va len c := by
  rcases h.region with hpinned | ⟨hallocated, hva⟩
  · exact startOk_pinned hpinned h.found h.update
  · exact startOk_allocated hallocated hva h.found h.update

/-! ## The whole call -/

/-- A call reads no segment outside the lists.  It succeeds exactly when the bytes of the two
ranges fit into the nodes that are left, and then its nodes move these bytes and no others. -/
structure AdapterExact (simplifyMode : Bool) (nodeIdx : ℕ) (srcBytes dstBytes : List (ℕ × UInt64))
    (len : UInt32) (r : Option Adapted) : Prop where
  length_src : srcBytes.length = len.toNat
  length_dst : dstBytes.length = len.toNat
  outcome : ∃ a, r = some a ∧ nodeIdx + a.nodes.length ≤ HDCDRV_MAX_DMA_NODE simplifyMode ∧
    (a.error = none → MovedBy a.nodes (srcBytes.zip dstBytes)) ∧
    (a.error = none ∨ a.error = some .paraErr) ∧
    (a.error = none ↔
      Chunked segments (HDCDRV_MAX_DMA_NODE simplifyMode - nodeIdx) (srcBytes.zip dstBytes))

theorem MovedBy.chunked {nodes : List DmaNode} {xs : List Transfer} (h : MovedBy nodes xs) :
    Chunked segments nodes.length xs := by
  obtain ⟨chunks, hmoves, hflat, hunif⟩ := h
  exact ⟨chunks, hmoves.length_eq.ge, hflat, hunif⟩

theorem memAdapter_exact (simplifyMode : Bool) (dir : DmaDirection) {src src' dst dst' : FastMem}
    {srcVa dstVa : UInt64} {len : UInt32} {nodeIdx : ℕ} (hsrc : src.Located src' srcVa len)
    (hdst : dst.Located dst' dstVa len) (hidx : nodeIdx ≤ HDCDRV_MAX_DMA_NODE simplifyMode) :
    AdapterExact simplifyMode nodeIdx (src.rangeBytes srcVa len) (dst.rangeBytes dstVa len) len
      (hdcdrvMemAdapter simplifyMode dir src' dst' nodeIdx len) := by
  obtain ⟨s, hs⟩ := hsrc.startOk
  obtain ⟨d, hd⟩ := hdst.startOk
  obtain ⟨r, hr, hok⟩ := adapterLoop_ok hs.mem hd.mem dir
    (HDCDRV_MAX_DMA_NODE simplifyMode - nodeIdx) s d len hs.enough hd.enough
    (fun hne => ⟨hs.len_pos hne, hd.len_pos hne⟩) hs.index hd.index
  have hleft : left src'.mem dst'.mem s d len.toNat =
      (src.rangeBytes srcVa len).zip (dst.rangeBytes dstVa len) := by
    rw [left, hs.bytes, hd.bytes]
    exact List.take_zipWith
  rw [hleft] at hok
  refine ⟨?_, ?_, r, ?_, ?_, hok.moved, hok.error, fun h => ?_, fun h => ?_⟩
  · rw [FastMem.rangeBytes, ← hs.bytes, List.length_take, Nat.min_eq_left hs.enough]
  · rw [FastMem.rangeBytes, ← hd.bytes, List.length_take, Nat.min_eq_left hd.enough]
  · rw [hdcdrvMemAdapter, hs.start, hd.start, Option.bind_some, Option.bind_some, if_neg, hr]
    rintro (h | h)
    · exact absurd hd.allocLen (UInt32.not_le.mpr h)
    · exact absurd hs.allocLen (UInt32.not_le.mpr h)
  · have := hok.length_le
    omega
  · exact (hok.moved h).chunked.mono hok.length_le
  · by_contra hne
    exact hok.tooLong hne h

/-- Two registered pages from the middle of the first. -/
def twoPages : FastMem where
  physAddrNum := 2
  allocLen := 0x1800
  userVa := 0x10800
  alignSize := 0x1000
  registerInnerPageOffset := 0x800
  pageStartIdx := 0
  sendInnerPageOffset := 0
  mem := [⟨0x80800, 0x800⟩, ⟨0x40000, 0x1000⟩]

/-- An allocated region of two segments. -/
def twoSegments : FastMem where
  physAddrNum := 2
  allocLen := 0x2000
  userVa := 0x20000
  alignSize := 0
  registerInnerPageOffset := 0
  pageStartIdx := 0
  sendInnerPageOffset := 0
  mem := [⟨0x90000, 0x600⟩, ⟨0xA0000, 0x1A00⟩]

theorem twoPages_located :
    twoPages.Located { twoPages with sendInnerPageOffset := 0x900 } 0x10900 0x1000 where
  region := .inl ⟨by decide, by decide, by decide, by decide, by decide, by decide, by decide⟩
  found := ⟨by decide, by decide⟩
  update := by rfl

theorem twoSegments_located : twoSegments.Located twoSegments 0x20000 0x1000 where
  region := .inr ⟨⟨by decide, by decide, by decide, by decide, by decide⟩, by decide⟩
  found := ⟨by decide, by decide⟩
  update := by rfl

theorem memAdapter_exact_pages :
    AdapterExact false 0 (twoPages.rangeBytes 0x10900 0x1000)
      (twoSegments.rangeBytes 0x20000 0x1000) 0x1000
      (hdcdrvMemAdapter false .deviceToHost { twoPages with sendInnerPageOffset := 0x900 }
        twoSegments 0 0x1000) :=
  memAdapter_exact false .deviceToHost twoPages_located twoSegments_located (Nat.zero_le _)

/-- The two lists are cut at different places. -/
example : hdcdrvMemAdapter false .deviceToHost { twoPages with sendInnerPageOffset := 0x900 }
    twoSegments 0 0x1000 = some ⟨none, [⟨0x80900, 0x90000, 0x600, .deviceToHost⟩,
      ⟨0x80F00, 0xA0000, 0x100, .deviceToHost⟩, ⟨0x40000, 0xA0100, 0x900, .deviceToHost⟩]⟩ := by
  decide

end OpiaiKernel.Hdc.MemAdapter
