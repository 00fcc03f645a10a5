import Xlab.ConnRead

/-!
# The transport table

UDP and UART share a table of drivers, indexed by transport type, and a map from descriptors
to session identities. A dispatch on a descriptor looks up its identity and calls the first
driver of the table that has the function, whichever type it is of.
-/

namespace Xlab

/-- `XLAB_SESSION_ID_UDP`. -/
def sessionIdUdp : UInt32 := 0xFFFFFFFE

/-- `XLAB_SESSION_ID_UART`. -/
def sessionIdUart : UInt32 := 0xFFFFFFFF

/-- Whether the `read` and `write` of an `xlab_trans_ops_t` are set. -/
structure TransOps where
  read : Bool
  write : Bool
  deriving DecidableEq, Repr

/-- `g_trans_ops`, `g_trans_fds` and `g_fd_map`. -/
structure Trans where
  ops : TransType → Option TransOps
  fds : TransType → ℤ
  fdMap : List (ℤ × UInt32)

/-- `TRANS_FD_MAP_SIZE`. -/
def transFdMapSize : ℕ := 32

/-- `trans_fd_map_add`. -/
def Trans.fdMapAdd (tr : Trans) (fd : ℤ) (sid : UInt32) : Trans :=
  if tr.fdMap.length < transFdMapSize then { tr with fdMap := tr.fdMap ++ [(fd, sid)] } else tr

/-- `trans_fd_map_remove`. -/
def Trans.fdMapRemove (tr : Trans) (fd : ℤ) : Trans :=
  { tr with fdMap := tr.fdMap.eraseP fun e => e.1 == fd }

/-- `xlab_session_map_by_fd`. -/
def Trans.sessionMapByFd (tr : Trans) (fd : ℤ) : UInt32 :=
  ((tr.fdMap.find? fun e => e.1 == fd).map Prod.snd).getD 0

/-- The driver that `xlab_trans_read_dispatch` and `xlab_trans_write_dispatch` call for a
descriptor, where `has` tells whether a driver has the function. -/
def Trans.driver (tr : Trans) (has : TransOps → Bool) (fd : ℤ) : Option TransType :=
  let sid := tr.sessionMapByFd fd
  if sid = 0 then none
  else [TransType.tcp, .udp, .uart].find? fun type =>
    (tr.ops type).any has &&
      (sid == sessionIdUdp || sid == sessionIdUart || sid == UInt32.ofInt fd)

theorem Trans.sessionMapByFd_fdMapRemove (tr : Trans) {fd fd' : ℤ} (h : fd' ≠ fd) :
    (tr.fdMapRemove fd).sessionMapByFd fd' = tr.sessionMapByFd fd' := by
  unfold fdMapRemove sessionMapByFd
  congr 2
  dsimp only
  induction tr.fdMap with
  | nil => rfl
  | cons e es ih =>
    by_cases he : e.1 = fd
    · have hne : (e.1 == fd') = false := by simpa [he] using Ne.symm h
      rw [List.eraseP_cons_of_pos (by simpa using he), List.find?_cons, hne]
    · rw [List.eraseP_cons_of_neg (by simpa using he), List.find?_cons, List.find?_cons, ih]

/-- The driver of a descriptor does not depend on the entries of other descriptors. -/
theorem Trans.driver_fdMapRemove (tr : Trans) (has : TransOps → Bool) {fd fd' : ℤ} (h : fd' ≠ fd) :
    (tr.fdMapRemove fd).driver has fd' = tr.driver has fd' := by
  rw [driver, driver, sessionMapByFd_fdMapRemove tr h]
  rfl

/-- Every driver has both functions, or none. -/
def Trans.Paired (tr : Trans) : Prop :=
  ∀ type, (tr.ops type).any TransOps.read = (tr.ops type).any TransOps.write

theorem Trans.Paired.congr {tr tr' : Trans} (h : tr.Paired) (hops : tr.ops = tr'.ops) :
    tr'.Paired := by
  intro type
  rw [← hops]
  exact h type

/-- A descriptor is read and written by the same driver. -/
theorem Trans.Paired.driver {tr : Trans} (h : tr.Paired) (fd : ℤ) :
    tr.driver TransOps.read fd = tr.driver TransOps.write fd := by
  unfold Trans.driver
  simp only [h _]

/-- The UDP or the UART descriptor. -/
def Trans.isDatagram (tr : Trans) (fd : ℤ) : Bool :=
  fd == tr.fds .udp || fd == tr.fds .uart

end Xlab
