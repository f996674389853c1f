import ScpRdma.Lifecycle.Connection

/-!
# The server's handles

As on the client, nothing that needs the session is asked for before `establishSession` has
succeeded.
-/
namespace ScpRdma.Lifecycle
open Foundations Receiver

/-- The operations that set the connection up or tear it down. -/
def SetsUp : Receiver.Op → Prop
  | .qpCreate | .sockEstablished | .registerMr | .exchange | .queryQp | .modifyQp _ | .transDestroy
  | .update .establish => True
  | _ => False

/-- The operations on the handles of the session. -/
def OnSession : Receiver.Op → Prop
  | .postRecv _ _ | .postSend _ | .pollCq => True
  | _ => False

/-- The receiver before and in its session. -/
def receiverPhases : Phases Receiver.signature Unit Bool where
  answers _ _ := True
  ops b o := ¬ SetsUp o ∧ (OnSession o → b = true)
  calls b c := c = .cdcCompletion → b = true
  opening _ := Receiver.establishSession
  opened r := r = true
  ops_open h := ⟨h.1, fun _ => rfl⟩
  calls_open _ _ := rfl

/-- The part of the receiver respects its phases. -/
abbrev Served {α : Type} (b : Bool) (p : Receiver α) : Prop := receiverPhases.Built b p

variable {α β : Type} {b : Bool}

theorem served_undefined (why : Undefined) : Served b (undefined why α) :=
  .ask ⟨id, False.elim⟩ fun r => r.elim

theorem served_files (p : Files α) : Served b (files p) := by
  induction p with
  | done a => exact .done
  | op o k ih => exact .op ⟨id, nofun⟩ fun r _ => ih r
  | call c k => cases c

/-- A part of the receiver in its session, without calls. -/
abbrev InSession {α : Type} (p : Receiver α) : Prop :=
  Program.Only (receiverPhases.ops true) (fun _ => False) p

theorem inSession_ask {o : Receiver.Op} {f : Receiver.Response o → Receiver α} (hc : ¬ SetsUp o)
    (hf : ∀ r, InSession (f r)) : InSession (Receiver.ask o >>= f) := ⟨⟨hc, fun _ => rfl⟩, hf⟩

theorem InSession.served {p : Receiver α} (h : InSession p) : Served true p :=
  .of_only (h.mono (fun _ ho => ho) fun _ hc => hc.elim)

theorem postNextRecv_inSession : InSession postNextRecv := by
  refine Program.Only.bind (inSession_ask id fun _ => .ite .done ?_) fun buf => ?_
  · exact inSession_ask id fun _ => .done
  · cases buf with
    | none => exact .done
    | some buf => exact inSession_ask id fun r => .done

theorem extendWindow_inSession (extra : Nat) : InSession (extendWindow extra) := by
  induction extra with
  | zero => exact .done
  | succ extra ih => exact postNextRecv_inSession.bind fun _ => .ite .done ih

theorem mkdirRecursive_served (path : Path) : Served b (mkdirRecursive path) :=
  .ite (served_undefined _) (served_files _)

theorem handleFileMeta_served (loc : Locals) (base : Nat) : Served b (handleFileMeta loc base) := by
  refine .ask ⟨id, False.elim⟩ fun type => .ask ⟨id, False.elim⟩ fun _ => ?_
  refine .ask ⟨id, False.elim⟩ fun name => .bind (served_files _) fun isDir => ?_
  refine .ite (.bind (served_files _) fun _ => .done) ?_
  refine .bind ?_ fun _ => .bind (served_files _) fun _ => ?_
  · unfold mkdirParent
    cases parentPath _ with
    | none => exact .done
    | some parent => exact .bind (mkdirRecursive_served _) fun _ => .done
  · refine .ite ?_ .done
    refine .ask ⟨id, False.elim⟩ fun mode => .ask ⟨id, False.elim⟩ fun fd => ?_
    exact .ask ⟨id, False.elim⟩ fun _ => .done

theorem handleFileData_served (loc : Locals) (base : Nat) : Served b (handleFileData loc base) := by
  refine .ask ⟨id, False.elim⟩ fun c => .ite ?_ ?_
  · refine .ask ⟨id, False.elim⟩ fun _ => .ask ⟨id, False.elim⟩ fun _ => ?_
    refine .bind (served_files _) fun _ => ?_
    exact .ite (.ask ⟨id, False.elim⟩ fun _ => .done) .done
  · cases loc.currentFd with
    | none => exact .done
    | some fd =>
      refine .ask ⟨id, False.elim⟩ fun _ => .ask ⟨id, False.elim⟩ fun _ => ?_
      refine .ask ⟨id, False.elim⟩ fun _ => .bind (served_files _) fun _ => ?_
      exact .ask ⟨id, False.elim⟩ fun _ => .done

theorem handleCommand_served (loc : Locals) (base cmd : Nat) :
    Served b (handleCommand loc base cmd) := by
  refine .ite (handleFileMeta_served _ _) (.ite (handleFileData_served _ _) ?_)
  refine .ite ?_ (.ite ?_ (.ite ?_ .done))
  · refine .ask ⟨id, False.elim⟩ fun name => .bind (mkdirRecursive_served _) fun _ => ?_
    exact .ask ⟨id, False.elim⟩ fun _ => .done
  · exact .bind (served_files _) fun _ => .done
  · exact .bind (served_files _) fun _ => .done

theorem handlePacket_served (loc : Locals) (buf : Nat) (slotId : UInt8) :
    Served true (handlePacket loc buf slotId) := by
  refine .bind (.ite .done (served_undefined _)) fun base => ?_
  refine .ask ⟨id, False.elim⟩ fun header => .ite .done ?_
  refine .bind (handleCommand_served _ _ _) fun loc => .bind ?_ fun _ => ?_
  · refine .ite .done (.bind postNextRecv_inSession.served fun _ => ?_)
    refine .ite .done (.ask ⟨id, False.elim⟩ fun _ => ?_)
    exact .ask ⟨id, False.elim⟩ fun _ => .done
  · refine .ite .done (.bind ?_ fun _ => ?_)
    · refine .ask ⟨id, False.elim⟩ fun _ => .ask ⟨id, False.elim⟩ fun _ => ?_
      exact .ask ⟨id, fun _ => rfl⟩ fun _ => .done
    · exact .ite .done .done

theorem receiveLoop_served (loc : Locals) : Served b (receiveLoopBody loc) := by
  refine .opens (F := receiverPhases) () (fun r hr => ?_) fun r hr => ?_
  · obtain rfl : r = true := hr
    refine .bind (.call (fun _ => rfl) fun _ => .done) fun done => ?_
    refine .ite .done (.ask ⟨id, False.elim⟩ fun c => ?_)
    -- the counter of completions is reset or it is not, and the rest is the same
    refine (fun hrest => .ite (.ask ⟨id, False.elim⟩ fun _ => hrest) hrest) ?_
    refine .bind ?_ fun buf => ?_
    · exact .ask ⟨id, False.elim⟩ fun _ => .ite .done
        (.ask ⟨id, False.elim⟩ fun _ => .done)
    · cases buf with
      | none => exact .done
      | some buf =>
        refine .bind ?_ fun loc' => ?_
        · exact .ask ⟨id, False.elim⟩ fun _ => handlePacket_served _ _ _
        · cases loc' with
          | none => exact .done
          | some loc' => exact .call Receiver.Call.noConfusion fun _ => .done
  · obtain rfl : r = false := eq_false_of_ne_true hr
    exact .done

theorem cdcCompletion_served : Served true cdcCompletionBody := by
  refine .ask ⟨id, fun _ => rfl⟩ fun wc => ?_
  have hagain : Served true rdmaCdcCompletion := .call (fun _ => rfl) fun _ => .done
  match wc with
  | none => exact .done
  | some none => exact hagain
  | some (some wc) =>
    refine .ite .done ?_
    cases wc.opcode with
    | recv => exact .done
    | rdmaWrite | send => exact hagain

theorem bodies_served (b : Bool) (c : Receiver.Call) (hc : c = .cdcCompletion → b = true) :
    Served b (bodies c) := by
  cases c with
  | receiveLoop loc => exact receiveLoop_served loc
  | cdcCompletion =>
    obtain rfl := hc rfl
    exact cdcCompletion_served

theorem scpReceiverRun_served (outputDir : Option Path) : Served b (scpReceiverRun outputDir) := by
  cases outputDir with
  | some dir =>
    exact .bind (mkdirRecursive_served _) fun _ => .call Receiver.Call.noConfusion fun _ => .done
  | none =>
    refine .ask ⟨id, False.elim⟩ fun base => ?_
    cases base with
    | none => exact .done
    | some base => exact .call Receiver.Call.noConfusion fun _ => .done

/-! ## The handled operations -/

/-- What the receiver keeps. -/
structure Open (b : Bool) (s : Ctx × Resources) : Prop extends
    Opened b s.1.sessionEstablished s.2 where
  alive : s.1.isAlive = true

variable {gid : Bool} {n : Nat} {c : Ctx} {t : Resources}

/-- The precondition of a part of the server. -/
abbrev ServerSafe (gid : Bool) (n : Nat) {α : Type} (p : Life Receiver.signature α)
    (Q : α → Ctx × Resources → Prop) (s : Ctx × Resources) : Prop :=
  Safe ((receiver gid).bodies bodies) (receiverContext true) n p Q s

theorem Open.updated {u : Receiver.Update} (hu : ¬ SetsUp (.update u)) (hs : Open b (c, t)) :
    Open b (u.apply c, t) := by
  cases u <;> first | exact absurd trivial hu | exact ⟨⟨hs.ready, hs.opened⟩, hs.alive⟩ |
    exact ⟨⟨hs.ready, hs.opened⟩, rfl⟩

theorem receiverOp_safe {o : Receiver.Op} (ho : receiverPhases.ops b o) (hs : Open b (c, t)) :
    ServerSafe gid n (receiver gid o) (fun _ s => True ∧ Open b s) (c, t) := by
  have hin : OnSession o → During t := fun hn => by
    have hr := hs.ready
    rwa [hs.opened (ho.2 hn)] at hr
  cases o with
  | qpCreate | sockEstablished | registerMr | exchange | queryQp | modifyQp | transDestroy =>
    exact absurd trivial ho.1
  | postRecv buf wrId =>
    have hd := hin trivial
    refine wp.op (D := duties Receiver.signature Ctx) trivial fun r hr => ?_
    refine (postReceiveCdc_safe (hd.holds hd.cdcMr (by decide))
      (hd.holds hd.qp (by decide))).mono ?_
    rintro r _ ⟨rfl, -⟩
    exact ⟨trivial, hs⟩
  | postSend msg =>
    refine (postSendCdc_safe (hin trivial)).mono ?_
    rintro r _ rfl
    exact ⟨trivial, hs⟩
  | pollCq =>
    have hcq := (hin trivial).holds (hin trivial).cq (by decide)
    exact safe_use (List.forall_mem_singleton.mpr hcq) (safe_run fun _ _ => ⟨trivial, hs⟩) fun _ =>
      safe_run fun _ _ => ⟨trivial, hs⟩
  | update u =>
    have hu := hs.updated ho.1
    cases u <;> first
      | exact absurd trivial ho.1
      | exact safe_run fun _ _ => ⟨trivial, hu⟩
  | _ => exact safe_run fun _ _ => ⟨trivial, hs⟩

/-! ## The session of the server -/

/-- On the way to a session: the socket is there, and then the regions are. -/
def Accepted (s : Ctx × Resources) : Prop :=
  s.1.sessionEstablished = false ∧ s.1.isAlive = true ∧ Before s.2 ∧ s.2.var .sock ≠ none

def Registering (s : Ctx × Resources) : Prop :=
  s.1.sessionEstablished = false ∧ s.1.isAlive = true ∧ s.1.cdcRecvSlots ≠ 0 ∧ Registered s.2

theorem receiver_connecting : Connecting (receiver gid) verbs ((receiver gid).bodies bodies)
    (semantics (receiverContext true) true) (duties Receiver.signature Ctx) Accepted
    Registering where
  mrCreate n := by
    rintro ⟨c, t⟩ ⟨hc, halive, hb, hsock⟩
    refine Handler.wp_bind (Handler.wp_ask (mrCreate_safe true hb hsock)) ?_
    rintro _ ⟨_, t'⟩ ⟨rfl, rfl, hr⟩
    refine Handler.wp_bind (P := fun _ s => Registering s)
      (Handler.wp_ask (safe_run fun _ _ => ⟨hc, halive, (by decide : rdmaCdcRecvSlots ≠ 0), hr⟩)) ?_
    exact fun _ _ h => wp.done ⟨rfl, h⟩
  exchange n := by
    rintro ⟨c, t⟩ ⟨hc, halive, hslots, hr⟩
    refine Handler.wp_ask ((exchange_safe gid hr).mono ?_)
    rintro _ ⟨_, t'⟩ ⟨rfl, rfl, hr'⟩
    exact ⟨rfl, hc, halive, hslots, hr'⟩
  queryQp n := by
    rintro ⟨c, t⟩ ⟨hc, halive, hslots, hr⟩
    have hqp := hr.sound.holds (f := .qp) (by decide) hr.qp
    refine Handler.wp_ask (safe_use (List.forall_mem_singleton.mpr hqp) ?_ fun _ => ?_) <;>
      exact safe_run fun r hallow => ⟨hallow rfl, hc, halive, hslots, hr⟩
  modifyQp st n := by
    rintro ⟨c, t⟩ ⟨hc, halive, hslots, hr⟩
    have hqp := hr.sound.holds (f := .qp) (by decide) hr.qp
    refine Handler.wp_ask (wp.op (D := duties Receiver.signature Ctx)
      (List.forall_mem_singleton.mpr hqp) fun r hsucc => wp.done ⟨?_, hc, halive, hslots, hr⟩)
    exact hsucc.2 rfl nofun
  acquirePostBuf n := by
    rintro ⟨c, t⟩ ⟨hc, halive, hslots, hr⟩
    refine Handler.wp_bind (P := fun r s => r = c ∧ s = (c, t))
      (Handler.wp_ask (safe_run fun r hrc => ⟨hrc, rfl⟩)) ?_
    rintro _ _ ⟨rfl, rfl⟩
    rw [if_neg hslots]
    refine Handler.wp_bind (P := fun _ s => Registering s)
      (Handler.wp_ask (safe_run fun _ _ => ⟨hc, halive, hslots, hr⟩)) ?_
    exact fun _ _ h => wp.done ⟨nofun, h⟩
  postRecv buf n := by
    rintro ⟨c, t⟩ ⟨hc, halive, hslots, hr⟩
    refine Handler.wp_ask (wp.op (D := duties Receiver.signature Ctx) trivial fun r hrc => ?_)
    obtain rfl : r = c := hrc
    refine (postReceiveCdc_safe (hr.sound.holds (by decide) hr.cdcMr)
      (hr.sound.holds (by decide) hr.qp)).mono ?_
    rintro r _ ⟨rfl, hok⟩
    exact ⟨hok hc, hc, halive, hslots, hr⟩

/-- A failure leaves a socket behind at most. -/
theorem scpPrepareReceiveResources_safe (hc : c.sessionEstablished = false)
    (halive : c.isAlive = true) (hb : Before t) :
    ServerSafe gid n ((receiver gid).run scpPrepareReceiveResources)
      (fun r s => s.1.sessionEstablished = false ∧ s.1.isAlive = true ∧ (r = 0 → Registering s) ∧
        (r ≠ 0 → Before s.2)) (c, t) := by
  refine Handler.wp_bind (P := fun r s => r = c ∧ s = (c, t))
    (Handler.wp_ask (safe_run fun r hrc => ⟨hrc, rfl⟩)) ?_
  rintro c₁ _ ⟨rfl, rfl⟩
  rw [halive]
  refine Handler.wp_bind (Handler.wp_ask (sockEstablished_safe hb)) ?_
  rintro r ⟨c₂, t₁⟩ ⟨rfl, hb₁, hsock⟩
  cases r with
  | false => exact wp.done ⟨hc, halive, nofun, fun _ => hb₁⟩
  | true =>
    refine Handler.wp_bind (receiver_connecting.rdmaTransInit ⟨hc, halive, hb₁, hsock rfl⟩) ?_
    rintro _ s ⟨rfl, hs⟩
    exact wp.done ⟨hs.1, hs.2.1, fun _ => hs, fun h => absurd rfl h⟩

theorem acceptSession_safe (hs : Open b (c, t)) :
    ServerSafe gid n ((receiver gid).run Receiver.establishSession)
      (fun r s => Open b s ∧ (r = true → Open true s)) (c, t) := by
  refine Handler.wp_bind (P := fun r s => r = c ∧ s = (c, t))
    (Handler.wp_ask (safe_run fun r hrc => ⟨hrc, rfl⟩)) ?_
  rintro c₁ _ ⟨rfl, rfl⟩
  cases hc : c₁.sessionEstablished with
  | true => exact wp.done ⟨hs, fun _ => ⟨⟨hs.ready, fun _ => hc⟩, hs.alive⟩⟩
  | false =>
    have hready : Ready c₁.sessionEstablished t := hs.ready
    rw [hc] at hready
    have hb : b = true → False := fun hb => absurd (hc.symm.trans (hs.opened hb)) nofun
    refine Handler.wp_bind (scpPrepareReceiveResources_safe hc hs.alive hready) ?_
    rintro r ⟨c₂, t₂⟩ ⟨hc₂, halive₂, hok, hfail⟩
    by_cases hr : r = 0
    · subst hr
      obtain ⟨-, -, -, hreg⟩ := hok rfl
      refine Handler.wp_bind (P := fun _ s => Open true s) (Handler.wp_ask ?_) ?_
      · refine wp.op (D := duties Receiver.signature Ctx) trivial fun _ _ => safe_run fun _ _ => ?_
        exact ⟨⟨hreg.during, fun _ => rfl⟩, halive₂⟩
      · rintro _ ⟨c₃, t₃⟩ h₃
        refine (Handler.wp_only (P := receiverPhases.ops true) (I := Open true) ?_ ?_ h₃).mono
          fun _ _ h => ?_
        · refine inSession_ask id fun _ => (extendWindow_inSession _).bind fun _ => ?_
          refine .ite .done (inSession_ask id fun _ => ?_)
          exact inSession_ask id fun _ => .done
        · exact fun o s ho hs => (receiverOp_safe ho hs).mono fun _ _ h => h.2
        · exact ⟨⟨⟨h.ready, fun _ => h.opened rfl⟩, h.alive⟩, fun _ => h⟩
    · rw [if_pos hr]
      refine wp.done ⟨⟨⟨?_, fun h => (hb h).elim⟩, halive₂⟩, nofun⟩
      change Ready c₂.sessionEstablished t₂
      rw [hc₂]
      exact hfail hr

/-! ## `main` -/

theorem served_safe {α : Type} {p : Receiver α} (hp : Served b p) (hs : Open b (c, t)) :
    ServerSafe gid n ((receiver gid).run p) (fun _ s => Open b s) (c, t) :=
  hp.handled (I := Open) bodies_served (fun _ h => ⟨⟨h.ready, nofun⟩, h.alive⟩)
    (fun _ _ _ _ ho h => receiverOp_safe ho h) (fun _ _ _ _ h => acceptSession_safe h)
    (fun _ _ => trivial) hs

theorem receiverMain_safe (outputDir : Option Path) :
    ServerSafe gid n (receiverMain gid outputDir) (fun _ _ => True)
      ((initState ()).ctx, atStart false) := by
  refine wp.bind (scpRdmaInit_safe false) ?_
  rintro r ⟨_, t⟩ ⟨rfl, hb⟩
  by_cases hr : r = 0
  · subst hr
    have hopen : Open false ((initState ()).ctx, t) := ⟨⟨hb rfl, nofun⟩, rfl⟩
    refine wp.bind (served_safe (scpReceiverRun_served outputDir) hopen) ?_
    rintro _ ⟨c, t⟩ hs
    exact wp.bind (scpRdmaDestroy_safe hs.sound) fun _ _ _ => wp.done trivial
  · rw [if_pos hr]
    exact wp.done trivial

end ScpRdma.Lifecycle
