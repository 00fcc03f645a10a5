import Xlab.Protocol

/-!
# The command router

The router table holds the registered commands in the order they were registered, and
`routerLookup` finds the first entry of a command. `routerProcess` is the synchronous
path : it rejects a frame with an error code, or runs the handler and builds the
response from its result.

A handler is any function of its parameters and of a `world`, the hardware and memory
handlers read and write. What it reports is at most 64 bytes, the size of the buffer it is
given.
-/

namespace Xlab

/-- What a handler returns, and the `resp_len` bytes it wrote to `resp`. -/
structure HandlerResult where
  ret : ℤ
  resp : List UInt8
  resp_le : resp.length ≤ 64

/-- A return without data. -/
def HandlerResult.bare (ret : ℤ) : HandlerResult :=
  ⟨ret, [], Nat.zero_le 64⟩

/-- `xlab_cmd_handler_t`. -/
abbrev Handler (W : Type) := W → List UInt8 → HandlerResult × W

/-- The error code both paths make of a handler's return. -/
def HandlerResult.errCode (r : HandlerResult) : ErrCode :=
  if r.ret < 0 then (-r.ret).toNat else errOk

/-- `XLAB_CMD_FLAG_NONE`. -/
def cmdFlagNone : UInt8 := 0x00

/-- `XLAB_CMD_FLAG_BLOCKING`. -/
def cmdFlagBlocking : UInt8 := 0x01

/-- `xlab_router_entry_t`. -/
structure RouterEntry (W : Type) where
  cmdCode : UInt8
  handler : Handler W
  minParams : UInt8
  maxParams : UInt8
  flags : UInt8

/-- `entry->flags & XLAB_CMD_FLAG_BLOCKING`. -/
def RouterEntry.blocking {W : Type} (e : RouterEntry W) : Bool :=
  e.flags &&& cmdFlagBlocking != 0

/-- `s_cmd_table[0 .. s_cmd_count)`. -/
abbrev RouterTable (W : Type) := List (RouterEntry W)

/-- `XLAB_ROUTER_MAX_CMDS`. -/
def routerMaxCmds : ℕ := 32

variable {W : Type}

/-- `xlab_router_register`. -/
def routerRegister (t : RouterTable W) (e : RouterEntry W) : ℤ × RouterTable W :=
  if routerMaxCmds ≤ t.length then (-1, t) else (0, t ++ [e])

/-- `xlab_router_lookup`. -/
def routerLookup (t : RouterTable W) (cmd : UInt8) : Option (RouterEntry W) :=
  t.find? fun e => e.cmdCode == cmd

/-- The parameter length is in the entry's range. -/
def RouterEntry.inRange (e : RouterEntry W) (pLen : ℕ) : Prop :=
  e.minParams.toNat ≤ pLen ∧ pLen ≤ e.maxParams.toNat

instance (e : RouterEntry W) (pLen : ℕ) : Decidable (e.inRange pLen) :=
  inferInstanceAs (Decidable (_ ∧ _))

/-- A handler call : the command it was made for and the parameters it got. -/
abbrev Invocation := UInt8 × List UInt8

/-- What `xlab_router_process` returns : an error code, or 0 and a response. -/
inductive RouterRet where
  | reject (code : ErrCode)
  | respond (resp : Response)
  deriving DecidableEq, Repr

/-- `xlab_router_process`, with the handler calls it makes. -/
def routerProcess (t : RouterTable W) (cmdCode : UInt8) (payload : List UInt8) (seq : UInt32)
    (world : W) : RouterRet × W × List Invocation :=
  if protoPayloadMax.toNat < payload.length then (.reject errLenOverflow, world, [])
  else
    match routerLookup t cmdCode with
    | none => (.reject errUnknownCmd, world, [])
    | some e =>
      if payload.length < e.minParams.toNat ∨ e.maxParams.toNat < payload.length then
        (.reject errParamRange, world, [])
      else
        let (r, world) := e.handler world payload
        (.respond (routerBuildResponse cmdCode r.errCode r.resp seq), world, [(cmdCode, payload)])

/-- A frame's payload passes the length check of the router. -/
theorem Frame.not_overflow (f : Frame) : ¬protoPayloadMax.toNat < f.payload.length :=
  Nat.not_lt.2 (Nat.le_trans f.payload_le (by decide))

theorem routerProcess_of_none {t : RouterTable W} {f : Frame} (h : routerLookup t f.cmd = none)
    (seq : UInt32) (world : W) :
    routerProcess t f.cmd f.payload seq world = (.reject errUnknownCmd, world, []) := by
  rw [routerProcess, if_neg f.not_overflow, h]

theorem routerProcess_of_not_inRange {t : RouterTable W} {f : Frame} {e : RouterEntry W}
    (h : routerLookup t f.cmd = some e) (hr : ¬e.inRange f.payload.length) (seq : UInt32)
    (world : W) :
    routerProcess t f.cmd f.payload seq world = (.reject errParamRange, world, []) := by
  have hr' : f.payload.length < e.minParams.toNat ∨ e.maxParams.toNat < f.payload.length := by
    unfold RouterEntry.inRange at hr
    omega
  rw [routerProcess, if_neg f.not_overflow, h]
  simp only [if_pos hr']

theorem routerProcess_of_inRange {t : RouterTable W} {f : Frame} {e : RouterEntry W}
    (h : routerLookup t f.cmd = some e) (hr : e.inRange f.payload.length) (seq : UInt32)
    (world : W) : routerProcess t f.cmd f.payload seq world =
      (.respond (routerBuildResponse f.cmd (e.handler world f.payload).1.errCode
        (e.handler world f.payload).1.resp seq), (e.handler world f.payload).2,
        [(f.cmd, f.payload)]) := by
  have hr' : ¬(f.payload.length < e.minParams.toNat ∨ e.maxParams.toNat < f.payload.length) := by
    unfold RouterEntry.inRange at hr
    omega
  rw [routerProcess, if_neg f.not_overflow, h]
  simp only [if_neg hr']

/-! ## The registered commands -/

/-- `cmd_handler_get_version` of `cmd_02.c`. -/
def cmd02HandlerGetVersion : Handler W := fun world params =>
  if params.length ≠ 0 then (.bare (-errParamRange), world)
  else (⟨0, [0x01, 0x02, 0x00], by decide⟩, world)

/-- `cmd_handler_start_read` of `cmd_06.c`, with `hw_read_tag_sync` as it is simulated
there. -/
def cmd06HandlerStartRead : Handler W := fun world params =>
  if params.length < 2 then (.bare (-errParamRange), world)
  else (⟨0, [0xAA, 0xBB, 0xCC], by decide⟩, world)

/-- The table the `cmd_*.c` constructors fill. -/
def cmdTable : RouterTable W :=
  (routerRegister (routerRegister []
    ⟨cmdGetVer, cmd02HandlerGetVersion, 0, 0, cmdFlagNone⟩).2
    ⟨cmdStartRead, cmd06HandlerStartRead, 2, 4, cmdFlagBlocking⟩).2

/-- `40 04 06 00 01 B5`, a request to start reading. -/
def startRead : Frame :=
  ⟨cmdStartRead, [0x00, 0x01], by decide⟩

/-- `40 02 02 BC`, a request for the version. -/
def getVer : Frame :=
  ⟨cmdGetVer, [], by decide⟩

end Xlab
