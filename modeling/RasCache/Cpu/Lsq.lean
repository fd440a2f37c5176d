import RasCache.Mem.Packet

/-!
# The load queue and snoops

Model of the load queue of `LSQUnit` as far as `checkSnoop`
(`cpu/o3/lsq_unit_impl.hh`) reads and writes it. The lock flags of load-locked
instructions are left out.
-/
namespace RasCache.Cpu

open Mem

/-- A load in the queue: the physical addresses of its requests, those the
memory system has not answered yet, and the flags of the instruction. `reExec`
says that its fault is `ReExec`. -/
structure Load where
  paddrs : List Mem.Addr
  pending : List Mem.Addr := []
  uncacheable : Bool := false
  effAddrValid : Bool := true
  strictlyOrdered : Bool := false
  possibleLoadViolation : Bool := false
  hitExternalSnoop : Bool := false
  reExec : Bool := false
deriving Repr, DecidableEq

namespace Load

def isCacheBlockHit (blkSize : Nat) (ld : Load) (blockAddr : Mem.Addr) : Bool :=
  ld.paddrs.any fun addr => decide (Packet.blkAlign addr blkSize = blockAddr)

/-- The loads `checkSnoop` passes over. -/
def skipped (ld : Load) : Bool := !ld.effAddrValid || ld.strictlyOrdered

/-- The memory system has delivered every part of the load. -/
def hasData (ld : Load) : Bool := ld.pending.isEmpty

end Load

section CheckSnoop

variable (needsTSO : Bool) (blkSize : Nat)

/-- The loop of `checkSnoop` behind the oldest load. -/
def scanLoads (blockAddr : Mem.Addr) : Bool → List Load → List Load
  | _, [] => []
  | forceSquash, ld :: rest =>
    if ld.skipped then ld :: scanLoads blockAddr forceSquash rest
    else if forceSquash || ld.isCacheBlockHit blkSize blockAddr then
      -- under TSO every later load is squashed, too
      let forceSquash := forceSquash || needsTSO
      let ld :=
        if ld.possibleLoadViolation || forceSquash then { ld with reExec := true }
        else { ld with hitExternalSnoop := true }
      ld :: scanLoads blockAddr forceSquash rest
    else ld :: scanLoads blockAddr forceSquash rest

/-- `checkSnoop`: the oldest load is never marked. -/
def checkSnoop (pkt : Packet) : List Load → List Load
  | [] => []
  | oldest :: rest =>
    oldest :: scanLoads needsTSO blkSize (Packet.blkAlign pkt.addr blkSize) false rest

end CheckSnoop

variable {queue : List Load} {ld : Load}

/-- Under TSO every load the snoop hits is marked. -/
theorem scanLoads_marks {blkSize : Nat} {blockAddr : Mem.Addr} (forceSquash : Bool) (k : Nat)
    (there : queue[k]? = some ld) (considered : ld.skipped = false)
    (hit : ld.isCacheBlockHit blkSize blockAddr = true) :
    (scanLoads true blkSize blockAddr forceSquash queue)[k]? =
      some { ld with reExec := true } := by
  induction queue generalizing forceSquash k with
  | nil => simp at there
  | cons first _ ih =>
    cases k with
    | zero =>
      simp only [List.getElem?_cons_zero, Option.some.injEq] at there
      subst there
      simp [scanLoads, considered, hit]
    | succ k =>
      rw [List.getElem?_cons_succ] at there
      unfold scanLoads
      -- whatever happens to the first load, the scan goes on behind it
      split_ifs
      · exact ih forceSquash k there
      · exact ih (forceSquash || true) k there
      · exact ih forceSquash k there

theorem checkSnoop_marks {blkSize : Nat} {pkt : Packet} {k : Nat} (there : queue[k]? = some ld)
    (younger : 0 < k) (considered : ld.skipped = false)
    (hit : ld.isCacheBlockHit blkSize (Packet.blkAlign pkt.addr blkSize) = true) :
    (checkSnoop true blkSize pkt queue)[k]? = some { ld with reExec := true } := by
  cases queue with
  | nil => simp at there
  | cons =>
    obtain ⟨k, rfl⟩ := Nat.exists_eq_succ_of_ne_zero (Nat.ne_of_gt younger)
    rw [List.getElem?_cons_succ] at there
    exact scanLoads_marks false k there considered hit

end RasCache.Cpu
