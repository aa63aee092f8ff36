import Umm.Common.CNumber
import Umm.Common.CString
import Umm.Lib.Layout
import Umm.Transport.SsdPoolBatch

/-! Direct I/O of `ssd_backend_direct.c`: the window of a file or of a disk, and the loop that moves
a request with calls that may move less than they are asked for. -/
namespace Umm
open Umm.Lib

/-- `IO_ALIGN` -/
def directAlign : UInt64 := 4096

def int64Max : UInt64 := 0x7FFFFFFFFFFFFFFF
def tmpfsMagic : UInt64 := 0x01021994
def ramfsMagic : UInt64 := 0x858458F6

/-- The part of a file or of a disk that a backend may touch. The counters of the backend are in
`SsdDirectStats`. -/
structure SsdDirect where
  base : UInt64
  capacity : UInt64
  alignment : UInt64
deriving DecidableEq, Repr

structure SsdDirectStats where
  reads : UInt64
  writes : UInt64
  readBytes : UInt64
  writeBytes : UInt64
  bounceBytes : UInt64
deriving DecidableEq, Repr

inductive FileKind where
  | regular
  | block
  | other
deriving DecidableEq, Repr

/-- What one `ssd_direct_open` meets. -/
structure DirectOpenEnv where
  stat : List UInt8 → Option FileKind
  /-- `UMM_ALLOW_BLOCK_DEVICE` -/
  allow : Option CString
  /-- Whether the path opens, by whether `O_EXCL` is asked for. -/
  opens : List UInt8 → Bool → Bool
  fstat : Option (FileKind × UInt64)
  blkGetSize64 : Option UInt64
  blkSszGet : Option ℤ
  /-- `f_type` -/
  fstatfs : Option UInt64
  calloc : Bool
  /-- `sysconf(_SC_PAGESIZE)` -/
  pageSize : ℤ

/-- The page size of a machine is a power of two, and a `long`. -/
def DirectOpenEnv.PowPages (env : DirectOpenEnv) : Prop := ∃ k < 63, env.pageSize = 2 ^ k

/-- What the addresses of buffers are aligned to. -/
def DirectOpenEnv.alignment (env : DirectOpenEnv) : UInt64 :=
  if env.pageSize > 4096 then UInt64.ofNat env.pageSize.toNat else directAlign

/-- The base, and the absolute path behind the colon. -/
def directSpec (spec : CString) : Option (UInt64 × List UInt8) :=
  match spec.bytes with
  | [] => none
  | b :: _ =>
    if ¬ isDigit b then none
    -- `ERANGE`
    else if 2 ^ 64 ≤ prefixed spec.bytes then none
    else
      match strtoullEnd spec.bytes with
      | 58 :: 47 :: path => some (strtoull prefixed spec.bytes, 47 :: path)
      | _ => none

/-- The size of what was opened. Memory that looks like a file is refused. -/
def directBytes (env : DirectOpenEnv) (block : Bool) (size : UInt64) : Except Error UInt64 :=
  if block then
    match env.blkGetSize64, env.blkSszGet with
    | some bytes, some sector =>
      if sector ≤ 0 ∨ directAlign % UInt64.ofNat sector.toNat ≠ 0 then .error .invalidArg
      else .ok bytes
    | _, _ => .error .invalidArg
  else
    match env.fstatfs with
    | none => .error .invalidArg
    | some fsType =>
      if fsType = tmpfsMagic ∨ fsType = ramfsMagic then .error .unsupported else .ok size

/-- The part of `ssd_direct_open` behind the checks of its arguments. -/
def ssdDirectOpenPath (env : DirectOpenEnv) (base capacity : UInt64) (path : List UInt8) :
    Except Error SsdDirect :=
  match env.stat path with
  | none => .error .notFound
  | some .other => .error .invalidArg
  | some kind =>
    let block : Bool := kind = .block
    if block ∧ env.allow.map CString.bytes ≠ some [49] then .error .unsupported
    else if ¬ env.opens path block then .error .transportError
    else
      match env.fstat with
      | none => .error .invalidArg
      | some (now, size) =>
        if now ≠ kind then .error .invalidArg
        else
          match directBytes env block size with
          | .error e => .error e
          | .ok bytes =>
            if base > bytes ∨ capacity > bytes - base then .error .invalidArg
            else if ¬ env.calloc then .error .noMemory
            else .ok ⟨base, capacity, env.alignment⟩

def ssdDirectOpen (env : DirectOpenEnv) (spec : CString) (capacity : UInt64) :
    Except Error SsdDirect :=
  if capacity = 0 ∨ capacity % directAlign ≠ 0 then .error .invalidArg
  else
    match directSpec spec with
    | none => .error .invalidArg
    | some (base, path) =>
      if base % directAlign ≠ 0 ∨ base > int64Max ∨ capacity > int64Max - base then
        .error .invalidArg
      else ssdDirectOpenPath env base capacity path

/-- The bounce buffer of a thread, with the bytes at `ptr`. -/
structure Bounce where
  block : Option Buffers
  size : UInt64
  align : UInt64

/-- How the thread library and the heap answer to one `get_bounce`. -/
structure BounceEnv where
  key : Bool
  calloc : Bool
  setspecific : Bool
  /-- A block that does not overlap any other, with what is in it. -/
  memalign : UInt64 → UInt64 → Option Buffers

/-- The part of `get_bounce` that finds or makes the entry of the thread. -/
def bounceEntry (env : BounceEnv) (bounce : Option Bounce) : Option Bounce :=
  match bounce with
  | some b => some b
  | none => if env.calloc ∧ env.setspecific then some ⟨none, 0, 0⟩ else none

/-- `get_bounce`, with the entry that it leaves. -/
def getBounce (env : BounceEnv) (size align : UInt64) (bounce : Option Bounce) :
    Option Buffers × Option Bounce :=
  if ¬ env.key then (none, bounce)
  else
    match bounceEntry env bounce with
    | none => (none, bounce)
    | some b =>
      if size > b.size ∨ align > b.align then
        match env.memalign align size with
        | none => (none, some b)
        | some block => (some block, some ⟨some block, size, align⟩)
      else (b.block, some b)

/-- One `pread` or `pwrite`. -/
structure DirectCall where
  isWrite : Bool
  /-- Where the bytes start in the buffer. -/
  done : UInt64
  pos : UInt64
  nbytes : UInt64
deriving DecidableEq, Repr

/-- How a call comes back. One that fails may have moved some bytes. -/
inductive DirectAnswer where
  | moved (n : UInt64)
  /-- `EINTR` -/
  | interrupted
  | failed (n : UInt64)
deriving DecidableEq, Repr

def DirectAnswer.bytes : DirectAnswer → UInt64
  | moved n => n
  | interrupted => 0
  | failed n => n

/-- The answers of the system, by the calls before. No call moves more than it is asked for. -/
structure DirectOs where
  answer : List (DirectCall × DirectAnswer) → DirectCall → DirectAnswer
  bytes_le : ∀ before call, (answer before call).bytes ≤ call.nbytes

/-- What the loop of `direct_io` works on: the file, the memory that `io_buf` points into, and the
calls so far. -/
structure DirectIo where
  file : Buffers
  mem : Buffers
  stats : SsdDirectStats
  calls : List (DirectCall × DirectAnswer)

def SsdDirectStats.count (isWrite : Bool) (n : UInt64) (stats : SsdDirectStats) : SsdDirectStats :=
  if isWrite then
    { stats with writes := stats.writes + 1, writeBytes := stats.writeBytes + n }
  else { stats with reads := stats.reads + 1, readBytes := stats.readBytes + n }

/-- A call and its answer, with the bytes that it moves. -/
def DirectIo.issue (start : ℕ) (call : DirectCall) (answer : DirectAnswer) (io : DirectIo) :
    DirectIo :=
  let calls := io.calls ++ [(call, answer)]
  let addr := start + call.done.toNat
  let n := answer.bytes.toNat
  if call.isWrite then
    { io with file := io.file.write call.pos.toNat (io.mem.read addr n), calls := calls }
  else { io with mem := io.mem.write addr (io.file.read call.pos.toNat n), calls := calls }

namespace SsdDirect

variable (b : SsdDirect)

/-- One transfer of Linux is limited to `MAX_RW_COUNT`. -/
def limit : UInt64 := 0x7ffff000 &&& ~~~(b.alignment - 1)

def call (isWrite : Bool) (off len done : UInt64) : DirectCall where
  isWrite := isWrite
  done := done
  pos := b.base + off + done
  nbytes := if len - done > b.limit then b.limit else len - done

/-- The loop of `direct_io`, with `io_buf` at `start`. Calls may be interrupted for ever. -/
def ioLoop (os : DirectOs) (isWrite : Bool) (off len : UInt64) (start : ℕ) :
    ℕ → UInt64 → DirectIo → Option (Except Error Unit) × DirectIo
  | fuel, done, io =>
    if done < len then
      match fuel with
      | 0 => (none, io)
      | fuel + 1 =>
        let call := b.call isWrite off len done
        let answer := os.answer io.calls call
        let io := io.issue start call answer
        match answer with
        | .interrupted => ioLoop os isWrite off len start fuel done io
        | .failed _ => (some (.error .transportError), io)
        | .moved n =>
          if n = 0 then (some (.error .transportError), io)
          else
            let io := { io with stats := io.stats.count isWrite n }
            -- A short transfer may no longer leave an aligned buffer or offset.
            if done + n < len ∧ n % b.alignment ≠ 0 then (some (.error .transportError), io)
            else ioLoop os isWrite off len start fuel (done + n) io
    else (some (.ok ()), io)

end SsdDirect

/-- What `direct_io` works on: the file, the memory of the caller, and the bounce buffer, which is
not part of it. -/
structure DirectState where
  file : Buffers
  host : Buffers
  bounce : Option Bounce
  stats : SsdDirectStats
  calls : List (DirectCall × DirectAnswer)

/-- `direct_io`, with the buffer at the address `buf`. `NULL` is 0. -/
def SsdDirect.directIo (b : SsdDirect) (os : DirectOs) (env : BounceEnv) (fuel : ℕ)
    (off len buf : UInt64) (isWrite : Bool) (st : DirectState) :
    Option (Except Error Unit) × DirectState :=
  if (buf = 0 ∧ len ≠ 0) ∨ off > b.capacity ∨ len > b.capacity - off ∨
      off % directAlign ≠ 0 ∨ len % directAlign ≠ 0 then (some (.error .invalidArg), st)
  else if len = 0 then (some (.ok ()), st)
  else if buf % b.alignment = 0 then
    let out := b.ioLoop os isWrite off len buf.toNat fuel 0 ⟨st.file, st.host, st.stats, st.calls⟩
    (out.1, { st with
      file := out.2.file
      host := out.2.mem
      stats := out.2.stats
      calls := out.2.calls })
  else
    match getBounce env len b.alignment st.bounce with
    | (none, bounce) => (some (.error .noMemory), { st with bounce := bounce })
    | (some block, bounce) =>
      let mem :=
        if isWrite then block.write 0 (st.host.read buf.toNat len.toNat) else block
      let stats := { st.stats with bounceBytes := st.stats.bounceBytes + len }
      let out := b.ioLoop os isWrite off len 0 fuel 0 ⟨st.file, mem, stats, st.calls⟩
      (out.1, {
        file := out.2.file
        host :=
          match out.1 with
          | some (.ok ()) =>
            if isWrite then st.host
            else st.host.write buf.toNat (out.2.mem.read 0 len.toNat)
          | _ => st.host
        bounce := bounce.map fun entry => { entry with block := some out.2.mem }
        stats := out.2.stats
        calls := out.2.calls })

/-- What a window that was accepted has. -/
structure SsdDirect.Window (b : SsdDirect) : Prop where
  base : ioAlign ∣ b.base.toNat
  fits : b.base.toNat + b.capacity.toNat < 2 ^ 63
  alignment : ioAlign ∣ b.alignment.toNat

theorem mod_directAlign {x : UInt64} : x % directAlign = 0 ↔ ioAlign ∣ x.toNat := by
  rw [← UInt64.toNat_inj, UInt64.toNat_mod]
  exact (Nat.dvd_iff_mod_eq_zero ..).symm

theorem DirectOpenEnv.PowPages.dvd_alignment {env : DirectOpenEnv} (h : env.PowPages) :
    ioAlign ∣ env.alignment.toNat := by
  obtain ⟨k, hk, hpage⟩ := h
  unfold DirectOpenEnv.alignment
  split_ifs with hlarge
  · have hnat : env.pageSize.toNat = 2 ^ k := by
      rw [hpage]
      exact Int.toNat_pow_of_nonneg (by norm_num) k
    have hlt : 2 ^ k < 2 ^ 64 := Nat.pow_lt_pow_right (by norm_num) (by omega)
    have hpow : (2 : ℤ) ^ 12 < 2 ^ k := by
      rw [← hpage]
      exact hlarge
    have hle : 12 < k := (pow_lt_pow_iff_right₀ (by norm_num)).mp hpow
    rw [hnat, UInt64.toNat_ofNat_of_lt' hlt]
    exact pow_dvd_pow 2 hle.le
  · exact dvd_refl _

theorem ssdDirectOpenPath_ok {env : DirectOpenEnv} {base capacity : UInt64} {path : List UInt8}
    {b : SsdDirect} (h : ssdDirectOpenPath env base capacity path = .ok b) :
    b = ⟨base, capacity, env.alignment⟩ := by
  unfold ssdDirectOpenPath at h
  split at h
  next => cases h
  next => cases h
  next kind hstat =>
    dsimp only at h
    split at h
    · cases h
    split at h
    · cases h
    split at h
    next => cases h
    next now size hfstat =>
      split at h
      · cases h
      split at h
      next => cases h
      next bytes hbytes =>
        split_ifs at h
        exact (Except.ok.inj h).symm

/-- Whatever window is accepted lies below the last offset of a file. -/
theorem ssdDirectOpen_window {env : DirectOpenEnv} (hpage : env.PowPages) {spec : CString}
    {capacity : UInt64} {b : SsdDirect} (h : ssdDirectOpen env spec capacity = .ok b) :
    b.Window := by
  unfold ssdDirectOpen at h
  split_ifs at h
  split at h
  next => cases h
  next base path hspec =>
    split_ifs at h with hbounds
    obtain ⟨halign, hbase, hfits⟩ := not_or.mp hbounds |>.imp_right not_or.mp
    obtain rfl := ssdDirectOpenPath_ok h
    have hbase' : base ≤ int64Max := UInt64.not_lt.mp hbase
    have hfits' : capacity ≤ int64Max - base := UInt64.not_lt.mp hfits
    have hle : base.toNat ≤ 2 ^ 63 - 1 := hbase'
    have hsub : (int64Max - base).toNat = 2 ^ 63 - 1 - base.toNat := UInt64.toNat_sub_of_le _ _ hbase'
    have hle' : capacity.toNat ≤ (int64Max - base).toNat := hfits'
    refine ⟨mod_directAlign.mp (not_not.mp halign), ?_, hpage.dvd_alignment⟩
    dsimp only
    omega

/-- `n` bytes moved between the file at `pos` and the memory at `addr`. -/
structure DirectIo.Moves (isWrite : Bool) (pos addr n : ℕ) (io io' : DirectIo) : Prop where
  file : io'.file = if isWrite then io.file.write pos (io.mem.read addr n) else io.file
  mem : io'.mem = if isWrite then io.mem else io.mem.write addr (io.file.read pos n)

namespace DirectIo.Moves

variable {isWrite : Bool} {pos addr m n : ℕ} {io io₁ io₂ : DirectIo}

theorem zero (hf : io₁.file = io.file) (hm : io₁.mem = io.mem) : Moves isWrite pos addr 0 io io₁ := by
  constructor
  · simp [hf, Buffers.write_nil]
  · simp [hm, Buffers.write_nil]

/-- Bytes that are moved next to those moved before. -/
theorem trans (h₁ : Moves isWrite pos addr m io io₁)
    (h₂ : Moves isWrite (pos + m) (addr + m) n io₁ io₂) : Moves isWrite pos addr (m + n) io io₂ := by
  have hread := io.mem.length_read addr m
  have hfile := io.file.length_read pos m
  obtain ⟨hf₁, hm₁⟩ := h₁
  obtain ⟨hf₂, hm₂⟩ := h₂
  cases isWrite with
  | true =>
    simp only [if_true] at hf₁ hm₁ hf₂ hm₂ ⊢
    refine ⟨?_, hm₂.trans hm₁⟩
    rw [if_pos rfl, hf₂, hf₁, hm₁, Buffers.read_add, ← Buffers.write_write, hread]
  | false =>
    simp only [Bool.false_eq_true, if_false] at hf₁ hm₁ hf₂ hm₂ ⊢
    refine ⟨hf₂.trans hf₁, ?_⟩
    rw [if_neg (by decide), hm₂, hm₁, hf₁, Buffers.read_add, ← Buffers.write_write, hfile]

theorem issue (start : ℕ) (call : DirectCall) (answer : DirectAnswer) (io : DirectIo) :
    Moves call.isWrite call.pos.toNat (start + call.done.toNat) answer.bytes.toNat io
      (io.issue start call answer) := by
  unfold DirectIo.issue
  cases hw : call.isWrite with
  | true => exact ⟨rfl, rfl⟩
  | false => exact ⟨rfl, rfl⟩

end DirectIo.Moves

theorem DirectIo.calls_issue (start : ℕ) (call : DirectCall) (answer : DirectAnswer)
    (io : DirectIo) : (io.issue start call answer).calls = io.calls ++ [(call, answer)] := by
  unfold DirectIo.issue
  cases hw : call.isWrite with
  | true => rfl
  | false => rfl

/-- A call that stays in the window and moves whole blocks. -/
structure SsdDirect.InWindow (b : SsdDirect) (call : DirectCall) : Prop where
  start : b.base.toNat ≤ call.pos.toNat
  stop : call.pos.toNat + call.nbytes.toNat ≤ b.base.toNat + b.capacity.toNat
  pos : ioAlign ∣ call.pos.toNat
  nbytes : ioAlign ∣ call.nbytes.toNat

/-- A request that `direct_io` does not refuse. -/
structure SsdDirect.Takes (b : SsdDirect) (off len : UInt64) : Prop where
  le : off.toNat + len.toNat ≤ b.capacity.toNat
  off : ioAlign ∣ off.toNat
  len : ioAlign ∣ len.toNat

/-- The range of the file that a call has moved. -/
def movedRange : DirectCall × DirectAnswer → Option (ℕ × ℕ)
  | (call, .moved n) => some (call.pos.toNat, n.toNat)
  | _ => none

namespace SsdDirect

variable {b : SsdDirect} {os : DirectOs} {isWrite : Bool} {off len done : UInt64} {start : ℕ}
  {io io' : DirectIo} {r : Option (Except Error Unit)}

theorem dvd_limit : ioAlign ∣ b.limit.toNat := by
  have hlow : (0x7ffff000 : UInt64).toNat % 2 ^ 12 = 0 := by decide
  apply Nat.dvd_of_mod_eq_zero
  change b.limit.toNat % 2 ^ 12 = 0
  unfold limit
  rw [UInt64.toNat_and, Nat.and_mod_two_pow, hlow, Nat.zero_and]

theorem toNat_call_pos (hw : b.Window) (ht : b.Takes off len) (hlt : done < len) (isWrite : Bool) :
    (b.call isWrite off len done).pos.toNat = b.base.toNat + off.toNat + done.toNat := by
  have hlt' : done.toNat < len.toNat := hlt
  have hle := ht.le
  have hfits := hw.fits
  unfold call
  dsimp only
  rw [UInt64.toNat_add, UInt64.toNat_add]
  omega

theorem toNat_call_nbytes (b : SsdDirect) (hlt : done < len) (isWrite : Bool) (off : UInt64) :
    (b.call isWrite off len done).nbytes.toNat = min b.limit.toNat (len.toNat - done.toNat) := by
  have hlt' : done.toNat < len.toNat := hlt
  have hsub : (len - done).toNat = len.toNat - done.toNat := UInt64.toNat_sub_of_le _ _ hlt'.le
  unfold call
  dsimp only
  split_ifs with hgt
  · have hgt' : b.limit.toNat < (len - done).toNat := hgt
    omega
  · have hle : ¬ b.limit.toNat < (len - done).toNat := hgt
    omega

theorem call_inWindow (hw : b.Window) (ht : b.Takes off len) (hlt : done < len)
    (hd : ioAlign ∣ done.toNat) (isWrite : Bool) : b.InWindow (b.call isWrite off len done) := by
  have hlt' : done.toNat < len.toNat := hlt
  have hle := ht.le
  have hpos := toNat_call_pos hw ht hlt isWrite
  have hnbytes := toNat_call_nbytes b hlt isWrite off
  refine ⟨by omega, by omega, ?_, ?_⟩
  · rw [hpos]
    exact (hw.base.add ht.off).add hd
  · rw [hnbytes]
    rcases min_choice b.limit.toNat (len.toNat - done.toNat) with hm | hm
    · rw [hm]
      exact dvd_limit
    · rw [hm]
      exact Nat.dvd_sub ht.len hd

theorem ioLoop_done (hge : ¬ done < len) (fuel : ℕ) :
    b.ioLoop os isWrite off len start fuel done io = (some (.ok ()), io) := by
  unfold ioLoop
  rw [if_neg hge]

/-- How one turn of the loop goes: the call was interrupted, it ended the loop, or it moved some
bytes. -/
theorem ioLoop_turn {fuel : ℕ} (hlt : done < len) {io₁ : DirectIo} {answer : DirectAnswer}
    (hanswer : os.answer io.calls (b.call isWrite off len done) = answer)
    (hissue : io.issue start (b.call isWrite off len done) answer = io₁)
    (h : b.ioLoop os isWrite off len start (fuel + 1) done io = (r, io')) :
    (answer = .interrupted ∧ b.ioLoop os isWrite off len start fuel done io₁ = (r, io')) ∨
    (r = some (.error .transportError) ∧ ∃ stats, io' = { io₁ with stats := stats }) ∨
    ∃ n stats, answer = .moved n ∧ n ≠ 0 ∧ (done + n < len → n % b.alignment = 0) ∧
      b.ioLoop os isWrite off len start fuel (done + n) { io₁ with stats := stats } = (r, io') := by
  unfold ioLoop at h
  rw [if_pos hlt] at h
  dsimp only at h
  rw [hanswer, hissue] at h
  cases answer with
  | interrupted => exact .inl ⟨rfl, h⟩
  | failed n =>
    obtain ⟨rfl, rfl⟩ := Prod.mk.inj h
    exact .inr (.inl ⟨rfl, io₁.stats, rfl⟩)
  | moved n =>
    dsimp only at h
    split_ifs at h with hn hshort
    · obtain ⟨rfl, rfl⟩ := Prod.mk.inj h
      exact .inr (.inl ⟨rfl, io₁.stats, rfl⟩)
    · obtain ⟨rfl, rfl⟩ := Prod.mk.inj h
      exact .inr (.inl ⟨rfl, _, rfl⟩)
    · exact .inr (.inr ⟨n, _, rfl, hn, fun hmore => not_not.mp fun ho => hshort ⟨hmore, ho⟩, h⟩)

/-- What the loop has done from `done` on when it comes back with `r`: its calls are `issued`, and
they moved `n` bytes in order. -/
structure Progress (b : SsdDirect) (isWrite : Bool) (off len start done : ℕ)
    (issued : List (DirectCall × DirectAnswer)) (n : ℕ) (io io' : DirectIo)
    (r : Option (Except Error Unit)) : Prop where
  calls : io'.calls = io.calls ++ issued
  inWindow : ∀ c ∈ issued, b.InWindow c.1
  le : n ≤ len - done
  moves : DirectIo.Moves isWrite (b.base.toNat + off + done) (start + done) n io io'
  ok : r = some (.ok ()) → n = len - done ∧
    EndToEnd Prod.fst Prod.snd (b.base.toNat + off + done) (issued.filterMap movedRange)
      (b.base.toNat + off + len)

namespace Progress

variable {off len start done m n : ℕ} {io io₁ io' : DirectIo} {call : DirectCall}
  {answer : DirectAnswer} {issued : List (DirectCall × DirectAnswer)}

theorem zero (h : r = some (.ok ()) → done = len) :
    Progress b isWrite off len start done [] 0 io io r where
  calls := (List.append_nil _).symm
  inWindow := fun c hc => by cases hc
  le := Nat.zero_le _
  moves := .zero rfl rfl
  ok := fun hr => by
    rw [h hr]
    exact ⟨(Nat.sub_self len).symm, rfl⟩

/-- The loop ends with an error after a call. -/
theorem stop (hin : b.InWindow call) (hm : m ≤ len - done)
    (hcalls : io₁.calls = io.calls ++ [(call, answer)])
    (hmoves : DirectIo.Moves isWrite (b.base.toNat + off + done) (start + done) m io io₁)
    (hr : r ≠ some (.ok ())) :
    Progress b isWrite off len start done [(call, answer)] m io io₁ r where
  calls := hcalls
  inWindow := fun c hc => by
    obtain rfl := List.mem_singleton.mp hc
    exact hin
  le := hm
  moves := hmoves
  ok := fun hok => absurd hok hr

/-- A call that moves `m` bytes, and what the loop does after it. -/
theorem cons (hin : b.InWindow call) (hm : m ≤ len - done)
    (hcalls : io₁.calls = io.calls ++ [(call, answer)])
    (hmoves : DirectIo.Moves isWrite (b.base.toNat + off + done) (start + done) m io io₁)
    (hrange : movedRange (call, answer) = some (b.base.toNat + off + done, m) ∨
      movedRange (call, answer) = none ∧ m = 0)
    (h : Progress b isWrite off len start (done + m) issued n io₁ io' r) :
    Progress b isWrite off len start done ((call, answer) :: issued) (m + n) io io' r where
  calls := by
    rw [h.calls, hcalls, List.append_assoc]
    rfl
  inWindow := List.forall_mem_cons.mpr ⟨hin, h.inWindow⟩
  le := by
    have hn := h.le
    omega
  moves := by
    have hmore := h.moves
    rw [← Nat.add_assoc, ← Nat.add_assoc] at hmore
    exact hmoves.trans hmore
  ok := fun hr => by
    obtain ⟨hn, hends⟩ := h.ok hr
    rw [← Nat.add_assoc] at hends
    refine ⟨by omega, ?_⟩
    obtain hsome | ⟨hnone, rfl⟩ := hrange
    · rw [List.filterMap_cons_some hsome]
      exact ⟨rfl, hends⟩
    · rw [List.filterMap_cons_none hnone]
      exact hends

end Progress

/-- The loop makes progress, however its calls come back. -/
theorem ioLoop_progress (hw : b.Window) (ht : b.Takes off len) {fuel : ℕ}
    (hle : done.toNat ≤ len.toNat) (hd : done < len → ioAlign ∣ done.toNat)
    (h : b.ioLoop os isWrite off len start fuel done io = (r, io')) :
    ∃ issued n,
      Progress b isWrite off.toNat len.toNat start done.toNat issued n io io' r := by
  induction fuel generalizing done io with
  | zero =>
    by_cases hlt : done < len
    · unfold ioLoop at h
      rw [if_pos hlt] at h
      obtain ⟨rfl, rfl⟩ := Prod.mk.inj h
      exact ⟨[], 0, .zero nofun⟩
    · have hge : len.toNat ≤ done.toNat := UInt64.not_lt.mp hlt
      rw [ioLoop_done hlt] at h
      obtain ⟨rfl, rfl⟩ := Prod.mk.inj h
      exact ⟨[], 0, .zero fun _ => by omega⟩
  | succ fuel ih =>
    by_cases hlt : done < len
    · have hpos := toNat_call_pos hw ht hlt isWrite
      have hnbytes := toNat_call_nbytes b hlt isWrite off
      have hin := call_inWindow hw ht hlt (hd hlt) isWrite
      have hbytes := os.bytes_le io.calls (b.call isWrite off len done)
      generalize hanswer : os.answer io.calls (b.call isWrite off len done) = answer at hbytes
      have hmoves := DirectIo.Moves.issue start (b.call isWrite off len done) answer io
      have hcalls := DirectIo.calls_issue start (b.call isWrite off len done) answer io
      generalize hissue : io.issue start (b.call isWrite off len done) answer = io₁ at hmoves hcalls
      rw [hpos] at hmoves
      have hm : answer.bytes.toNat ≤ len.toNat - done.toNat := by
        have hbytes' : answer.bytes.toNat ≤ (b.call isWrite off len done).nbytes.toNat := hbytes
        omega
      obtain ⟨rfl, hloop⟩ | ⟨rfl, stats, rfl⟩ | ⟨n, stats, rfl, hn, hshort, hloop⟩ :=
        ioLoop_turn hlt hanswer hissue h
      · obtain ⟨issued, n, hrest⟩ := ih hle hd hloop
        exact ⟨_, _, .cons hin hm hcalls hmoves (.inr ⟨rfl, rfl⟩) hrest⟩
      · exact ⟨_, _, .stop hin hm hcalls ⟨hmoves.file, hmoves.mem⟩ nofun⟩
      · have hbound := len.toNat_lt
        have hnext : (done + n).toNat = done.toNat + n.toNat := by
          have hm' : n.toNat ≤ len.toNat - done.toNat := hm
          rw [UInt64.toNat_add]
          omega
        have hdvd : done + n < len → ioAlign ∣ (done + n).toNat := by
          intro hmore
          have hzero : n.toNat % b.alignment.toNat = 0 := by
            rw [← UInt64.toNat_mod, hshort hmore]
            rfl
          rw [hnext]
          exact (hd hlt).add (hw.alignment.trans (Nat.dvd_of_mod_eq_zero hzero))
        have hle' : (done + n).toNat ≤ len.toNat := by
          have hm' : n.toNat ≤ len.toNat - done.toNat := hm
          have hlt' : done.toNat < len.toNat := hlt
          omega
        obtain ⟨issued, k, hrest⟩ := ih hle' hdvd hloop
        rw [hnext] at hrest
        have hrange : movedRange (b.call isWrite off len done, .moved n) =
            some (b.base.toNat + off.toNat + done.toNat, n.toNat) := by
          dsimp only [movedRange]
          rw [hpos]
        have hcounted : DirectIo.Moves isWrite (b.base.toNat + off.toNat + done.toNat)
            (start + done.toNat) n.toNat io { io₁ with stats := stats } :=
          ⟨hmoves.file, hmoves.mem⟩
        have hlogged : { io₁ with stats := stats }.calls =
            io.calls ++ [(b.call isWrite off len done, .moved n)] := hcalls
        exact ⟨_, _, .cons hin hm hlogged hcounted (.inl hrange) hrest⟩
    · have hge : len.toNat ≤ done.toNat := UInt64.not_lt.mp hlt
      rw [ioLoop_done hlt] at h
      obtain ⟨rfl, rfl⟩ := Prod.mk.inj h
      exact ⟨[], 0, .zero fun _ => by omega⟩

/-- A loop whose calls are not interrupted for ever comes back. -/
theorem ioLoop_returns {k fuel : ℕ}
    (hquiet : ∀ before call, k ≤ before.length → os.answer before call ≠ .interrupted)
    (hle : done.toNat ≤ len.toNat)
    (hfuel : (k - io.calls.length) + (len.toNat - done.toNat) ≤ fuel)
    (h : b.ioLoop os isWrite off len start fuel done io = (r, io')) : r ≠ none := by
  induction fuel generalizing done io with
  | zero =>
    have hdone : ¬ done < len := fun hlt => by
      have hlt' : done.toNat < len.toNat := hlt
      omega
    rw [ioLoop_done hdone] at h
    obtain ⟨rfl, rfl⟩ := Prod.mk.inj h
    exact nofun
  | succ fuel ih =>
    by_cases hlt : done < len
    · have hlt' : done.toNat < len.toNat := hlt
      have hnbytes := toNat_call_nbytes b hlt isWrite off
      have hbytes := os.bytes_le io.calls (b.call isWrite off len done)
      have hcalls := congrArg List.length (DirectIo.calls_issue start (b.call isWrite off len done)
        (os.answer io.calls (b.call isWrite off len done)) io)
      rw [List.length_append, List.length_singleton] at hcalls
      obtain ⟨hinterrupted, hloop⟩ | ⟨rfl, -⟩ | ⟨n, stats, hmoved, hn, -, hloop⟩ :=
        ioLoop_turn hlt rfl rfl h
      · have hearly : ¬ k ≤ io.calls.length := fun hk => hquiet _ _ hk hinterrupted
        exact ih hle (by omega) hloop
      · exact nofun
      · rw [hmoved] at hbytes
        have hn' : n.toNat ≤ (b.call isWrite off len done).nbytes.toNat := hbytes
        have hpos : 0 < n.toNat := Nat.pos_of_ne_zero fun hz => hn (UInt64.toNat_inj.mp hz)
        have hbound := len.toNat_lt
        have hnext : (done + n).toNat = done.toNat + n.toNat := by
          rw [UInt64.toNat_add]
          omega
        refine ih (by omega) ?_ hloop
        dsimp only
        omega
    · rw [ioLoop_done hlt] at h
      obtain ⟨rfl, rfl⟩ := Prod.mk.inj h
      exact nofun

/-- What the loop gets is a request that the window takes. -/
theorem takes_of_checks {buf : UInt64} (h : ¬ ((buf = 0 ∧ len ≠ 0) ∨ off > b.capacity ∨
    len > b.capacity - off ∨ off % directAlign ≠ 0 ∨ len % directAlign ≠ 0)) :
    b.Takes off len := by
  obtain ⟨-, hrest⟩ := not_or.mp h
  obtain ⟨hoff, hrest⟩ := not_or.mp hrest
  obtain ⟨hlen, hrest⟩ := not_or.mp hrest
  obtain ⟨hoffMod, hlenMod⟩ := not_or.mp hrest
  have hoff' : off ≤ b.capacity := UInt64.not_lt.mp hoff
  have hsub : (b.capacity - off).toNat = b.capacity.toNat - off.toNat :=
    UInt64.toNat_sub_of_le _ _ hoff'
  have hle : len.toNat ≤ (b.capacity - off).toNat := UInt64.not_lt.mp hlen
  have hle' : off.toNat ≤ b.capacity.toNat := hoff'
  exact ⟨by omega, mod_directAlign.mp (not_not.mp hoffMod),
    mod_directAlign.mp (not_not.mp hlenMod)⟩

/-- What a request did to the file and to the memory of the caller. -/
def Stores (b : SsdDirect) (isWrite : Bool) (off len buf : UInt64) (st st' : DirectState) : Prop :=
  if isWrite then
    st'.host = st.host ∧ st'.file = st.file.write (b.base.toNat + off.toNat)
      (st.host.read buf.toNat len.toNat)
  else
    st'.file = st.file ∧ st'.host = st.host.write buf.toNat
      (st.file.read (b.base.toNat + off.toNat) len.toNat)

/-- The calls of a request lie in the window, and if it succeeds they move its bytes in order. -/
def Exact (b : SsdDirect) (isWrite : Bool) (off len buf : UInt64) (st st' : DirectState)
    (r : Option (Except Error Unit)) : Prop :=
  ∃ issued, st'.calls = st.calls ++ issued ∧ (∀ c ∈ issued, b.InWindow c.1) ∧
    (r = some (.ok ()) →
      EndToEnd Prod.fst Prod.snd (b.base.toNat + off.toNat) (issued.filterMap movedRange)
        (b.base.toNat + off.toNat + len.toNat) ∧ b.Stores isWrite off len buf st st')

section Requests

variable {buf : UInt64} {st st' : DirectState}

theorem Exact.none (hcalls : st'.calls = st.calls) (hr : r ≠ some (.ok ())) :
    b.Exact isWrite off len buf st st' r :=
  ⟨[], hcalls.trans (List.append_nil _).symm, fun c hc => (by cases hc), fun hok => absurd hok hr⟩

theorem Exact.empty : b.Exact isWrite off 0 buf st st r := by
  refine ⟨[], (List.append_nil _).symm, fun c hc => (by cases hc), fun _ => ⟨rfl, ?_⟩⟩
  unfold Stores
  split_ifs
  · exact ⟨rfl, (Buffers.write_nil ..).symm⟩
  · exact ⟨rfl, (Buffers.write_nil ..).symm⟩

/-- The loop worked on the memory of the caller. -/
theorem Exact.plain {issued : List (DirectCall × DirectAnswer)} {n : ℕ}
    (h : Progress b isWrite off.toNat len.toNat buf.toNat 0 issued n
      ⟨st.file, st.host, st.stats, st.calls⟩ io' r)
    (hfile : st'.file = io'.file) (hhost : st'.host = io'.mem) (hcalls : st'.calls = io'.calls) :
    b.Exact isWrite off len buf st st' r := by
  refine ⟨issued, hcalls.trans h.calls, h.inWindow, fun hr => ?_⟩
  obtain ⟨hn, hends⟩ := h.ok hr
  have hmoves := h.moves
  rw [Nat.sub_zero] at hn
  subst hn
  refine ⟨hends, ?_⟩
  unfold Stores
  cases isWrite with
  | true => exact ⟨hhost.trans hmoves.mem, hfile.trans hmoves.file⟩
  | false => exact ⟨hfile.trans hmoves.file, hhost.trans hmoves.mem⟩

/-- The loop worked on a block that got the bytes of the caller, or gives them to the caller. -/
theorem Exact.bounced {issued : List (DirectCall × DirectAnswer)} {n : ℕ} {block : Buffers}
    {stats : SsdDirectStats}
    (h : Progress b isWrite off.toNat len.toNat 0 0 issued n
      ⟨st.file, if isWrite then block.write 0 (st.host.read buf.toNat len.toNat) else block,
        stats, st.calls⟩ io' r)
    (hfile : st'.file = io'.file) (hcalls : st'.calls = io'.calls)
    (hhost : r = some (.ok ()) → st'.host =
      if isWrite then st.host else st.host.write buf.toNat (io'.mem.read 0 len.toNat)) :
    b.Exact isWrite off len buf st st' r := by
  refine ⟨issued, hcalls.trans h.calls, h.inWindow, fun hr => ?_⟩
  obtain ⟨hn, hends⟩ := h.ok hr
  have hmoves := h.moves
  have hcopied := hhost hr
  rw [Nat.sub_zero] at hn
  subst hn
  refine ⟨hends, ?_⟩
  unfold Stores
  cases isWrite with
  | true =>
    have hfull : (block.write 0 (st.host.read buf.toNat len.toNat)).read 0 len.toNat =
        st.host.read buf.toNat len.toNat := by
      have hback := block.read_write 0 (st.host.read buf.toNat len.toNat)
      rwa [Buffers.length_read] at hback
    refine ⟨hcopied, hfile.trans (hmoves.file.trans ?_)⟩
    exact congrArg (st.file.write (b.base.toNat + off.toNat)) hfull
  | false =>
    have hfull : io'.mem.read 0 len.toNat =
        st.file.read (b.base.toNat + off.toNat) len.toNat := by
      have hback := block.read_write 0 (st.file.read (b.base.toNat + off.toNat) len.toNat)
      rw [Buffers.length_read] at hback
      rw [hmoves.mem]
      exact hback
    refine ⟨hfile.trans hmoves.file, hcopied.trans ?_⟩
    exact congrArg (st.host.write buf.toNat) hfull

end Requests

end SsdDirect

/-- Every request on a window that was accepted stays inside of it, however the system answers, and
one that succeeds moves each of its bytes once. -/
theorem directIo_exact {openEnv : DirectOpenEnv} (hpage : openEnv.PowPages) {spec : CString}
    {capacity : UInt64} {b : SsdDirect} (hopen : ssdDirectOpen openEnv spec capacity = .ok b)
    (os : DirectOs) (env : BounceEnv) (fuel : ℕ) (off len buf : UInt64) (isWrite : Bool)
    (st : DirectState) {r : Option (Except Error Unit)} {st' : DirectState}
    (h : b.directIo os env fuel off len buf isWrite st = (r, st')) :
    b.Exact isWrite off len buf st st' r := by
  have hw := ssdDirectOpen_window hpage hopen
  have hprogress : ∀ start io r io', b.Takes off len →
      b.ioLoop os isWrite off len start fuel 0 io = (r, io') →
      ∃ issued n, b.Progress isWrite off.toNat len.toNat start 0 issued n io io' r :=
    fun start io r io' ht hloop => SsdDirect.ioLoop_progress hw ht (Nat.zero_le _)
      (fun _ => dvd_zero _) hloop
  unfold SsdDirect.directIo at h
  split at h
  · obtain ⟨rfl, rfl⟩ := Prod.mk.inj h
    exact .none rfl nofun
  next hchecks =>
  have ht := SsdDirect.takes_of_checks hchecks
  split at h
  next hzero =>
    obtain ⟨rfl, rfl⟩ := Prod.mk.inj h
    rw [hzero]
    exact .empty
  split at h
  next =>
    obtain ⟨hr, rfl⟩ := Prod.mk.inj h
    obtain ⟨issued, n, hloop⟩ := hprogress buf.toNat ⟨st.file, st.host, st.stats, st.calls⟩ r _
      ht (Prod.ext hr rfl)
    exact .plain hloop rfl rfl rfl
  split at h
  next bounce hget =>
    obtain ⟨rfl, rfl⟩ := Prod.mk.inj h
    exact .none rfl nofun
  next block bounce hget =>
    obtain ⟨hr, rfl⟩ := Prod.mk.inj h
    obtain ⟨issued, n, hloop⟩ := hprogress 0 _ r _ ht (Prod.ext hr rfl)
    refine .bounced hloop rfl rfl fun hok => ?_
    dsimp only
    rw [hr, hok]

/-- A regular file of three blocks on a disk. -/
def threeBlocks : DirectOpenEnv where
  stat := fun _ => some .regular
  allow := none
  opens := fun _ _ => true
  fstat := some (.regular, 12288)
  blkGetSize64 := none
  blkSszGet := none
  fstatfs := some 0xEF53
  calloc := true
  pageSize := 4096

/-- The first call is interrupted, the others move one block at most. -/
def oneBlockAtATime : DirectOs where
  answer := fun before call =>
    if before = [] then .interrupted
    else .moved (if call.nbytes > 4096 then 4096 else call.nbytes)
  bytes_le := by
    intro before call
    split_ifs with hfirst hlarge
    · exact UInt64.zero_le
    · exact UInt64.le_of_lt hlarge
    · exact UInt64.le_refl _

/-- A file of which the bytes are numbered, and an empty memory. -/
def numberedFile : DirectState where
  file := fun a => UInt8.ofNat a
  host := fun _ => 0
  bounce := none
  stats := ⟨0, 0, 0, 0, 0⟩
  calls := []

def plainBounce : BounceEnv where
  key := true
  calloc := true
  setspecific := true
  memalign := fun _ _ => some fun _ => 0

/-- `4096:/d` -/
def secondBlock : CString := ⟨[52, 48, 57, 54, 58, 47, 100], by decide⟩

/-- Two blocks are read through the bounce buffer, with an interrupted and a short call. -/
theorem directIo_exact_bounced : ∃ st',
    (⟨4096, 8192, 4096⟩ : SsdDirect).directIo oneBlockAtATime plainBounce 3 0 8192 0x1001 false
      numberedFile = (some (.ok ()), st') ∧
    (⟨4096, 8192, 4096⟩ : SsdDirect).Exact false 0 8192 0x1001 numberedFile st' (some (.ok ())) := by
  have hopen : ssdDirectOpen threeBlocks secondBlock 8192 = .ok ⟨4096, 8192, 4096⟩ := by rfl
  have hok : ((⟨4096, 8192, 4096⟩ : SsdDirect).directIo oneBlockAtATime plainBounce 3 0 8192 0x1001
      false numberedFile).1 = some (.ok ()) := by rfl
  have hrun := Prod.ext hok rfl
  exact ⟨_, hrun, directIo_exact ⟨12, by decide, rfl⟩ hopen _ _ _ _ _ _ _ _ hrun⟩

/-! What the pool sees of a window: whole blocks only, and else what the driver answers. -/

theorem Buffers.read_take {m : Buffers} {addr n k : ℕ} (h : n ≤ k) :
    (m.read addr k).take n = m.read addr n := by
  obtain ⟨j, rfl⟩ := Nat.exists_eq_add_of_le h
  rw [Buffers.read_add]
  exact List.take_left' (m.length_read addr n)

theorem Buffers.read_write_take {m : Buffers} {addr n : ℕ} {xs : List UInt8} (h : n ≤ xs.length) :
    (m.write addr xs).read addr n = xs.take n := by
  rw [← Buffers.read_take h, Buffers.read_write]

/-- A first part of a request was served. -/
def SsdDirect.StoresFirst (b : SsdDirect) (isWrite : Bool) (off len buf : UInt64) (n : ℕ)
    (st st' : DirectState) : Prop :=
  if isWrite then
    st'.host = st.host ∧ st'.file = st.file.write (b.base.toNat + off.toNat)
      ((st.host.read buf.toNat len.toNat).take n)
  else
    st'.file = st.file ∧ st'.host = st.host.write buf.toNat
      ((st.file.read (b.base.toNat + off.toNat) len.toNat).take n)

/-- The world whose drivers all answer like this. -/
def OsIo.driven (r : Except Error Unit) (n : ℕ) : OsIo :=
  { OsIo.whole with driver := fun _ _ _ _ => match r with
    | .ok () => none
    | .error e => some (e, n) }

theorem OsIo.driven_directIo {r : Except Error Unit} {n off len : ℕ} (hoff : ioAlign ∣ off)
    (hlen : ioAlign ∣ len) (hle : n ≤ len) (hok : r = .ok () → n = len) (isWrite : Bool) (dev : ℕ) :
    (OsIo.driven r n).directIo isWrite dev off len = (r, n) := by
  have halign : ¬ (off % ioAlign ≠ 0 ∨ len % ioAlign ≠ 0) := by
    rw [not_or, not_not, not_not]
    exact ⟨Nat.mod_eq_zero_of_dvd hoff, Nat.mod_eq_zero_of_dvd hlen⟩
  unfold OsIo.directIo
  rw [if_neg halign]
  unfold OsIo.driverIo OsIo.driven
  cases r with
  | error e => exact congrArg _ (Nat.min_eq_left hle)
  | ok u =>
    obtain rfl := hok rfl
    rfl

namespace SsdDirect

variable {b : SsdDirect} {isWrite : Bool} {off len buf : UInt64} {st st' : DirectState}

theorem storesFirst_zero (hfile : st'.file = st.file) (hhost : st'.host = st.host) :
    b.StoresFirst isWrite off len buf 0 st st' := by
  unfold StoresFirst
  rw [List.take_zero, List.take_zero, Buffers.write_nil, Buffers.write_nil]
  cases isWrite with
  | true => exact ⟨hhost, hfile⟩
  | false => exact ⟨hfile, hhost⟩

theorem storesFirst_plain {n : ℕ} {io io' : DirectIo} (hn : n ≤ len.toNat)
    (hmoves : DirectIo.Moves isWrite (b.base.toNat + off.toNat) buf.toNat n io io')
    (hfile : io.file = st.file) (hmem : io.mem = st.host) (hfile' : st'.file = io'.file)
    (hhost : st'.host = io'.mem) : b.StoresFirst isWrite off len buf n st st' := by
  unfold StoresFirst
  rw [Buffers.read_take hn, Buffers.read_take hn, hfile', hhost, hmoves.file, hmoves.mem, hfile,
    hmem]
  cases isWrite with
  | true => exact ⟨rfl, rfl⟩
  | false => exact ⟨rfl, rfl⟩

/-- The block has the bytes of the caller, or the caller gets those of a request that succeeds. -/
theorem storesFirst_bounced {n : ℕ} {block : Buffers} {io io' : DirectIo} {r : Except Error Unit}
    (hn : n ≤ len.toNat) (hok : r = .ok () → n = len.toNat)
    (hmoves : DirectIo.Moves isWrite (b.base.toNat + off.toNat) 0 n io io')
    (hfile : io.file = st.file)
    (hmem : io.mem = if isWrite then block.write 0 (st.host.read buf.toNat len.toNat) else block)
    (hfile' : st'.file = io'.file)
    (hhost : st'.host = match r with
      | .ok () => if isWrite then st.host else st.host.write buf.toNat (io'.mem.read 0 len.toNat)
      | .error _ => st.host) :
    ∃ k ≤ len.toNat, (r = .ok () → k = len.toNat) ∧ b.StoresFirst isWrite off len buf k st st' := by
  have hlength : (st.host.read buf.toNat len.toNat).length = len.toNat := Buffers.length_read ..
  have hfile₂ := hfile'.trans hmoves.file
  have hmem₂ := hmoves.mem
  rw [hfile] at hfile₂ hmem₂
  unfold StoresFirst
  cases isWrite with
  | true =>
    refine ⟨n, hn, hok, ?_, ?_⟩
    · rw [hhost]
      cases r <;> rfl
    · rw [hfile₂, hmem, if_pos rfl, if_pos rfl, Buffers.read_write_take (hn.trans hlength.ge)]
  | false =>
    cases r with
    | error e =>
      refine ⟨0, Nat.zero_le _, nofun, hfile₂, ?_⟩
      rw [List.take_zero, Buffers.write_nil]
      exact hhost
    | ok u =>
      refine ⟨n, hn, hok, hfile₂, ?_⟩
      obtain rfl := hok rfl
      have hfull := io.mem.read_write 0 (st.file.read (b.base.toNat + off.toNat) len.toNat)
      rw [Buffers.length_read] at hfull
      rw [List.take_of_length_le (Buffers.length_read ..).le, hhost, hmem₂]
      exact congrArg (st.host.write buf.toNat) hfull

end SsdDirect

/-- A request inside of a window is answered as the pool has it: by the check for whole blocks, or
by a driver that serves a first part of it, and all of it where it answers that it did. -/
theorem directIo_driver {b : SsdDirect} (hw : b.Window) (os : DirectOs) (env : BounceEnv)
    (fuel : ℕ) {off len buf : UInt64} (hbuf : buf ≠ 0)
    (hin : off.toNat + len.toNat ≤ b.capacity.toNat) {isWrite : Bool} {st st' : DirectState}
    {r : Except Error Unit} (h : b.directIo os env fuel off len buf isWrite st = (some r, st'))
    (dev : ℕ) : ∃ (io : OsIo) (n : ℕ),
      io.directIo isWrite dev off.toNat len.toNat = (r, n) ∧
        b.StoresFirst isWrite off len buf n st st' := by
  have hoff : off ≤ b.capacity := UInt64.le_iff_toNat_le.mpr (by omega)
  have hsub : (b.capacity - off).toNat = b.capacity.toNat - off.toNat :=
    UInt64.toNat_sub_of_le _ _ hoff
  have hlen : len ≤ b.capacity - off := UInt64.le_iff_toNat_le.mpr (by omega)
  unfold SsdDirect.directIo at h
  by_cases halign : off % directAlign ≠ 0 ∨ len % directAlign ≠ 0
  · -- Not whole blocks: both refuse before anything moves.
    rw [if_pos (.inr (.inr (.inr halign)))] at h
    obtain ⟨hr, rfl⟩ := Prod.mk.inj h
    obtain rfl := Option.some.inj hr
    refine ⟨.whole, 0, ?_, SsdDirect.storesFirst_zero rfl rfl⟩
    unfold OsIo.directIo
    refine if_pos (halign.imp (fun ho hz => ho ?_) (fun hl hz => hl ?_))
    · exact mod_directAlign.mpr (Nat.dvd_of_mod_eq_zero hz)
    · exact mod_directAlign.mpr (Nat.dvd_of_mod_eq_zero hz)
  have hchecks : ¬ ((buf = 0 ∧ len ≠ 0) ∨ off > b.capacity ∨ len > b.capacity - off ∨
      off % directAlign ≠ 0 ∨ len % directAlign ≠ 0) := by
    rintro (⟨hzero, -⟩ | hgt | hgt | hmod)
    · exact hbuf hzero
    · exact UInt64.not_lt.mpr hoff hgt
    · exact UInt64.not_lt.mpr hlen hgt
    · exact halign hmod
  have ht := SsdDirect.takes_of_checks hchecks
  -- What is left to find is how many bytes the driver served.
  suffices hserved : ∃ n ≤ len.toNat, (r = .ok () → n = len.toNat) ∧
      b.StoresFirst isWrite off len buf n st st' by
    obtain ⟨n, hn, hok, hstores⟩ := hserved
    exact ⟨.driven r n, n, OsIo.driven_directIo ht.off ht.len hn hok isWrite dev, hstores⟩
  rw [if_neg hchecks] at h
  split at h
  next hzero =>
    obtain ⟨-, rfl⟩ := Prod.mk.inj h
    refine ⟨0, Nat.zero_le _, fun _ => ?_, SsdDirect.storesFirst_zero rfl rfl⟩
    rw [hzero]
    rfl
  split at h
  next =>
    obtain ⟨hr, rfl⟩ := Prod.mk.inj h
    obtain ⟨issued, n, hloop⟩ := SsdDirect.ioLoop_progress hw ht (Nat.zero_le _)
      (fun _ => dvd_zero _) (Prod.ext hr rfl)
    exact ⟨n, hloop.le, fun hok => (hloop.ok (congrArg some hok)).1,
      SsdDirect.storesFirst_plain hloop.le hloop.moves rfl rfl rfl rfl⟩
  split at h
  next bounce hget =>
    obtain ⟨hr, rfl⟩ := Prod.mk.inj h
    obtain rfl := Option.some.inj hr
    exact ⟨0, Nat.zero_le _, nofun, SsdDirect.storesFirst_zero rfl rfl⟩
  next block bounce hget =>
    obtain ⟨hr, rfl⟩ := Prod.mk.inj h
    obtain ⟨issued, n, hloop⟩ := SsdDirect.ioLoop_progress hw ht (Nat.zero_le _)
      (fun _ => dvd_zero _) (Prod.ext hr rfl)
    refine SsdDirect.storesFirst_bounced hloop.le (fun hok => (hloop.ok (congrArg some hok)).1)
      hloop.moves rfl rfl rfl ?_
    dsimp only
    rw [hr]
    cases r <;> rfl

end Umm
