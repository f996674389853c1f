import ScpRdma.Sender.Program

/-!
# The parts of the sender that name nothing

Everything below the three functions that send an object: polling, posting, the session, the
chunk loop. These ask for no call on a path and lay out no record with a name.
-/
namespace ScpRdma.Sender
open Foundations

/-- The path of the object that a call is on. -/
def opPath : Op → Option Path
  | .stat path | .lstat path | .openFile path _ | .readlink path _ | .opendir path => some path
  | _ => none

/-- The bytes are a record that names an object. -/
def IsRecord (bs : Bytes) : Prop :=
  field bs 5 1 = [CmdType.fileMeta.byte] ∨ field bs 5 1 = [CmdType.dirEnter.byte]

/-- The operation names nothing. Records are laid out at the start of the session buffer. -/
def Unnamed : Op → Prop
  | .stat _ | .lstat _ | .openFile _ _ | .readlink _ _ | .opendir _ => False
  | .store addr bs => addr = 0 → ¬ IsRecord bs
  | _ => True

/-- The loops that poll. -/
def Polls : Call → Prop
  | .waitForSlot _ | .drainPendingAcks | .waitForRdmaWriteCompletion => True
  | _ => False

/-- The operations with which the connection is set up or torn down. -/
def Connects : Op → Prop
  | .sockEstablished | .registerMr | .exchange | .queryQp | .modifyQp _ | .transDestroy
  | .update .establish => True
  | _ => False

/-- A part of the sender that names nothing. -/
abbrev Quiet {α : Type} (p : Sender α) : Prop := Program.Only Unnamed Polls p

/-- The operations that neither walk or read the source nor lay out, point at, send or count a
packet. -/
def Silent : Op → Prop
  | .stat _ | .lstat _ | .openFile _ _ | .readlink _ _ | .opendir _ | .closedir _ | .store _ _
  | .pread _ _ _ _ | .postWrite _ _ _ | .postSend _ | .progress _ _ | .update (.setSge _)
  | .update (.nextSlot _) | .update .restart | .update (.addBytes _) => False
  | _ => True

/-- The operations of polling, and of posting a receive. -/
def Tends : Op → Prop
  | .get | .update (.freeSlot _) | .update .acquire | .update .consume | .postRecv _ _
  | .waitCompletion _ _ _ | .readCdc _ => True
  | _ => False

/-- A part of the sender that polls and posts receives. -/
abbrev Working {α : Type} (p : Sender α) : Prop := Program.Only Tends Polls p

variable {α β : Type}

theorem Silent.unnamed {o : Op} (h : Silent o) : Unnamed o := by
  cases o <;> trivial

theorem Tends.silent {o : Op} (h : Tends o) : Silent o := by
  cases o
  case update u => cases u <;> trivial
  all_goals trivial

theorem Tends.not_connects {o : Op} (h : Tends o) : ¬ Connects o := by
  cases o
  case update u => cases u <;> first | exact id | exact h.elim
  all_goals first | exact id | exact h.elim

theorem silent_of_working {p : Sender α} (h : Working p) : Program.Only Silent Polls p :=
  h.mono (fun _ => Tends.silent) fun _ h => h

theorem quiet_of_silent {p : Sender α} (h : Program.Only Silent Polls p) : Quiet p :=
  h.mono (fun _ => Silent.unnamed) fun _ h => h

theorem quiet_of_working {p : Sender α} (h : Working p) : Quiet p :=
  quiet_of_silent (silent_of_working h)

theorem handleAckRecv_working (wrId : Nat) : Working (handleAckRecv wrId) := by
  refine .bind ?_ fun slotId => ?_
  · refine .bind (.bind (.ask trivial) fun c => ?_) fun buf => ?_
    · exact .ite .done (.bind (.ask trivial) fun _ => .done)
    · cases buf with
      | none => exact .done
      | some buf => exact .bind (.ask trivial) fun _ => .done
  · split
    · exact .bind (.ask trivial) fun c => .ite .done (.ask trivial)
    · exact .done

theorem harvestBatch_working (wcs : List Wc) (h e : Nat) : Working (harvestBatch wcs h e) := by
  induction wcs generalizing h e with
  | nil => exact .done
  | cons wc wcs ih =>
    refine .ite (ih _ _) ?_
    cases wc.opcode with
    | recv => exact .bind (handleAckRecv_working _) fun _ => ih _ _
    | rdmaWrite | send => exact ih _ _

theorem harvestCompletions_working (site : Site) (blocking : Bool) :
    Working (harvestCompletions site blocking) := by
  refine .bind (.ask trivial) fun wcs => ?_
  cases wcs with
  | none => exact .done
  | some wcs =>
    exact .bind (harvestBatch_working _ _ _) fun _ => .ite .done .done

theorem writeBatch_working (wcs : List Wc) (done : Bool) : Working (writeBatch wcs done) := by
  induction wcs generalizing done with
  | nil => exact .done
  | cons wc wcs ih =>
    refine .ite .done ?_
    cases wc.opcode with
    | recv => exact .bind (handleAckRecv_working _) fun _ => ih _
    | rdmaWrite | send => exact ih _

theorem waitForSlot_working (s : Slot) : Working (waitForSlot s) := ⟨trivial, fun _ => trivial⟩

theorem drainPendingAcks_working : Working drainPendingAcks := ⟨trivial, fun _ => trivial⟩

theorem waitForRdmaWriteCompletion_working : Working waitForRdmaWriteCompletion :=
  ⟨trivial, fun _ => trivial⟩

theorem polls_working (cfg : Config) (c : Call) (h : Polls c) :
    Working (bodies cfg c) := by
  cases c with
  | waitForSlot s =>
    refine .bind (.ask trivial) fun c => .ite .done ?_
    refine .bind (harvestCompletions_working _ _) fun _ => ?_
    exact .ite .done (waitForSlot_working s)
  | drainPendingAcks =>
    refine .bind (.ask trivial) fun c => .ite .done ?_
    refine .bind (harvestCompletions_working _ _) fun _ => ?_
    exact .ite .done drainPendingAcks_working
  | waitForRdmaWriteCompletion =>
    refine .bind (.ask trivial) fun wcs => ?_
    match wcs with
    | none => exact .done
    | some [] => exact waitForRdmaWriteCompletion_working
    | some (wc :: wcs) =>
      refine .bind (writeBatch_working _ _) fun done => ?_
      match done with
      | none | some true => exact .done
      | some false => exact waitForRdmaWriteCompletion_working
  | sendDirectory | readdirLoop => exact h.elim

theorem rdmaCdcAcquirePostBuf_working : Working rdmaCdcAcquirePostBuf :=
  .bind (.ask trivial) fun _ =>
    .ite .done (.bind (.ask trivial) fun _ => .done)

theorem postAckRecv_working (wrId : Nat) : Working (postAckRecv wrId) := by
  refine .bind rdmaCdcAcquirePostBuf_working fun buf => ?_
  cases buf with
  | none => exact .done
  | some buf =>
    exact .bind (.ask trivial) fun _ => .ite .done .done

theorem polls_quiet (cfg : Config) (c : Call) (h : Polls c) : Quiet (bodies cfg c) :=
  quiet_of_working (polls_working cfg c h)

theorem rdmaTransPost_quiet (wr : TransWr) : Quiet (rdmaTransPost wr) := by
  refine .bind ?_ fun sges => .bind (.ask trivial) fun _ => ?_
  · cases wr.sges with
    | session => exact .bind (.ask trivial) fun _ => .done
    | own sges => exact .done
  · exact .ite .done (.bind (.ask trivial) fun _ => .done)

theorem scpRdmaSendSync_quiet (wr : TransWr) : Quiet (scpRdmaSendSync wr) := by
  refine .step (quiet_of_working (waitForSlot_working 0)) ?_
  refine .step (quiet_of_working (postAckRecv_working 0)) ?_
  refine .step (rdmaTransPost_quiet wr) ?_
  refine .step (quiet_of_working waitForRdmaWriteCompletion_working) ?_
  refine .bind (.ask trivial) fun _ => .bind (.ask trivial) fun _ => ?_
  refine .ite (.bind (.ask trivial) fun _ => .done) ?_
  exact .step (quiet_of_working (waitForSlot_working 0)) .done

theorem rdmaTransInit_silent : Program.Only Silent Polls (Session.rdmaTransInit verbs) := by
  refine .bind ?_ fun _ => .bind ?_ fun _ => ?_
  · refine .bind (.ask trivial) fun _ => ?_
    exact .ite (.bind (.ask trivial) fun _ => .done) .done
  · refine .step (.ask trivial) (.bind (.ask trivial) fun st => ?_)
    cases st with
    | none => exact .done
    | some st =>
      refine .ite .done (.step (.ask trivial) ?_)
      refine .bind (silent_of_working rdmaCdcAcquirePostBuf_working) fun buf => ?_
      cases buf with
      | none => exact .bind (.ask trivial) fun r => r.elim
      | some buf =>
        refine .step (.ask trivial) (.step (.ask trivial) ?_)
        exact .step (.ask trivial) .done
  · exact .ite (.bind (.ask trivial) fun _ => .done) .done

theorem establishSession_silent (wr : TransWr) :
    Program.Only Silent Polls (establishSession wr) := by
  refine .bind (.ask trivial) fun c => .ite .done (.bind ?_ fun r => ?_)
  · exact .step (.ask trivial) (.step rdmaTransInit_silent .done)
  · cases r with
    | none => exact .done
    | some wr => exact .bind (.ask trivial) fun _ => .done

theorem establishSession_quiet (wr : TransWr) : Quiet (establishSession wr) :=
  quiet_of_silent (establishSession_silent wr)

/-- The session is set up, and then the rest. -/
theorem quiet_open {wr : TransWr} {fail : Sender α} {q : TransWr → Sender α} (hfail : Quiet fail)
    (hq : ∀ wr, Quiet (q wr)) : Quiet (do
      match ← establishSession wr with
      | none => fail
      | some wr => q wr) := by
  refine .bind (establishSession_quiet wr) fun r => ?_
  cases r with
  | none => exact hfail
  | some wr => exact hq wr

theorem sendSessionBuf_quiet (wr : TransWr) (len : Nat) : Quiet (sendSessionBuf wr len) :=
  .bind (.ask trivial) fun _ => scpRdmaSendSync_quiet _

theorem not_isRecord_dataChunkHeader (i off len : Nat) :
    ¬ IsRecord (dataChunkHeader i off len) := by
  have h : field (dataChunkHeader i off len) 5 1 = [CmdType.fileData.byte] := by
    simp [field, dataChunkHeader, scpInitPacketHeader, leBytes]
  rintro (hc | hc) <;> simp [h, CmdType.byte] at hc

theorem chunkLoop_quiet (fd : Handle) (direct : Bool) (size remaining i off : Nat) :
    Quiet (chunkLoop fd direct size remaining i off) := by
  induction remaining generalizing i off with
  | zero => exact .done
  | succ remaining ih =>
    refine .bind (.ask trivial) fun slot => ?_
    refine .step (quiet_of_working (waitForSlot_working _)) (.bind ?_ fun n => ?_)
    · refine .ite ?_ ?_ <;> refine .bind (.ask trivial) fun data => ?_ <;>
        cases data <;> exact .done
    · match n with
      | none | some 0 => exact .done
      | some (n + 1) =>
        refine .bind (.ask fun _ => not_isRecord_dataChunkHeader _ _ _) fun _ => ?_
        refine .step (quiet_of_working (postAckRecv_working _)) ?_
        refine .step (rdmaTransPost_quiet _) ?_
        refine .step (.ask trivial) (.bind (.ask trivial) fun _ => ?_)
        refine .bind (.ask trivial) fun _ => .bind (.ask trivial) fun _ => ?_
        refine .bind (.ask trivial) fun _ => ?_
        exact .step (quiet_of_working (harvestCompletions_working _ _)) (ih _ _)

end ScpRdma.Sender
