import ScpRdma.Sender.Quiet
import ScpRdma.Lifecycle.Connection

/-!
# The client's handles

The sender asks for nothing that needs the session before `establishSession` succeeded. Every
request that it posts succeeds, so that behind the session nothing is torn down but by `main`.
-/
namespace ScpRdma.Lifecycle
open Foundations Sender

/-- The operations on the handles of the session. -/
def NeedsSession : Sender.Op → Prop
  | .postRecv _ _ | .postWrite _ _ _ | .postSend _ | .waitCompletion _ _ _ => True
  | _ => False

/-- The sender before and in its session. -/
def senderPhases : Phases Sender.signature TransWr (Option TransWr) where
  answers
    | .postWrite _ _ _, r => r = true
    | _, _ => True
  ops b o := ¬ Connects o ∧ (NeedsSession o → b = true)
  calls b c := Polls c → b = true
  opening := Sender.establishSession
  opened r := r.isSome
  ops_open h := ⟨h.1, fun _ => rfl⟩
  calls_open _ _ := rfl

/-- The part of the sender respects its phases. -/
abbrev Driven {α : Type} (b : Bool) (p : Sender α) : Prop := senderPhases.Built b p

variable {α β : Type} {b : Bool}

theorem driven_working {p : Sender α} (h : Working p) : Driven true p :=
  .of_only (h.mono (fun _ ho => ⟨ho.not_connects, fun _ => rfl⟩) fun _ _ _ => rfl)

theorem rdmaTransPost_driven (wr : TransWr) : Driven true (rdmaTransPost wr) := by
  refine .bind ?_ fun sges => ?_
  · cases wr.sges with
    | session => exact .ask ⟨id, False.elim⟩ fun _ => .done
    | own sges => exact .done
  · refine .op ⟨id, fun _ => rfl⟩ fun r hr => ?_
    obtain rfl : r = true := hr
    exact .done

theorem scpRdmaSendSync_driven (wr : TransWr) : Driven true (scpRdmaSendSync wr) := by
  refine .step (driven_working (waitForSlot_working 0)) ?_
  refine .step (driven_working (postAckRecv_working 0)) ?_
  refine .step (rdmaTransPost_driven wr) ?_
  refine .step (driven_working waitForRdmaWriteCompletion_working) ?_
  refine .ask ⟨id, False.elim⟩ fun _ => .ask ⟨id, fun _ => rfl⟩ fun _ => ?_
  refine .ite (.ask ⟨id, False.elim⟩ fun _ => .done) ?_
  exact .step (driven_working (waitForSlot_working 0)) .done

theorem sendSessionBuf_driven (wr : TransWr) (len : Nat) : Driven true (sendSessionBuf wr len) :=
  .ask ⟨id, False.elim⟩ fun _ => scpRdmaSendSync_driven _

theorem chunkLoop_driven (fd : Handle) (direct : Bool) (size remaining i off : Nat) :
    Driven true (chunkLoop fd direct size remaining i off) := by
  induction remaining generalizing i off with
  | zero => exact .done
  | succ remaining ih =>
    refine .ask ⟨id, False.elim⟩ fun c => ?_
    refine .step (driven_working (waitForSlot_working _)) (.bind ?_ fun n => ?_)
    · refine .ite ?_ ?_ <;> refine .ask ⟨id, False.elim⟩ fun data => ?_ <;>
        cases data <;> exact .done
    · match n with
      | none | some 0 => exact .done
      | some (n + 1) =>
        refine .ask ⟨id, False.elim⟩ fun _ => ?_
        refine .step (driven_working (postAckRecv_working _)) ?_
        refine .step (rdmaTransPost_driven _) ?_
        refine .ask ⟨id, fun _ => rfl⟩ fun _ => .ite .done ?_
        refine .ask ⟨id, False.elim⟩ fun _ => .ask ⟨id, False.elim⟩ fun _ => ?_
        refine .ask ⟨id, False.elim⟩ fun _ => .ask ⟨id, False.elim⟩ fun _ => ?_
        exact .step (driven_working (harvestCompletions_working _ _)) (ih _ _)

/-- `if (establish_session()) fail`, and then the rest, in the session. -/
theorem driven_open {wr : TransWr} {fail : Sender Int} {q : TransWr → Sender Int}
    (hfail : Driven b fail) (hq : ∀ wr, Driven true (q wr)) :
    Driven b (do
      match ← Sender.establishSession wr with
      | none => fail
      | some wr => q wr) := by
  refine .opens (F := senderPhases) wr (fun r hr => ?_) fun r hr => ?_
  · cases r with
    | none => cases hr
    | some wr => exact hq wr
  · cases r with
    | none => exact hfail
    | some wr => exact absurd rfl hr

theorem scpSendSymlink_driven (l r : Path) (st : Stat) : Driven b (scpSendSymlink l r st) := by
  refine .ask ⟨id, False.elim⟩ fun target => ?_
  cases target with
  | none => exact .done
  | some target =>
    refine .ask ⟨id, False.elim⟩ fun _ => driven_open .done fun wr => ?_
    refine .step (sendSessionBuf_driven _ _) ?_
    refine .ask ⟨id, False.elim⟩ fun _ => .ask ⟨id, False.elim⟩ fun _ => ?_
    refine .ask ⟨id, False.elim⟩ fun _ => .step (scpRdmaSendSync_driven _) ?_
    exact .ask ⟨id, False.elim⟩ fun _ => .done

theorem scpSendFile_driven (l r : Path) : Driven b (scpSendFile l r) := by
  have hclose : ∀ (b : Bool) (fd : Handle) (x : Int),
      Driven b (do Sender.ask (.close fd); return x) :=
    fun _ _ _ => .ask ⟨id, False.elim⟩ fun _ => .done
  refine .ask ⟨id, False.elim⟩ fun st => ?_
  cases st with
  | none => exact .done
  | some st =>
    refine .bind ?_ ?_
    · refine .ask ⟨id, False.elim⟩ fun fd => ?_
      cases fd with
      | some fd => exact .done
      | none =>
        refine .ask ⟨id, False.elim⟩ fun fd => ?_
        cases fd <;> exact .done
    · rintro (_ | ⟨fd, direct⟩)
      · exact .done
      · refine .ask ⟨id, False.elim⟩ fun _ => driven_open (hclose _ fd _) fun wr => ?_
        refine .bind (sendSessionBuf_driven _ _) fun _ => .ite (hclose _ fd _) ?_
        refine .ask ⟨id, False.elim⟩ fun _ => ?_
        refine .bind (chunkLoop_driven ..) fun _ => .ite (hclose _ fd _) ?_
        refine .bind (driven_working drainPendingAcks_working) fun _ =>
          .ite (hclose _ fd _) ?_
        refine .ask ⟨id, False.elim⟩ fun _ => .ask ⟨id, False.elim⟩ fun _ => .done

theorem driven_invoke {c : Sender.Call} (h : Polls c → b = true) : Driven b (Sender.invoke c) :=
  .call h fun _ => .done

theorem sendObject_driven (l r : Path) (st : Stat) : Driven b (sendObject l r st) := by
  unfold sendObject
  cases st.kind with
  | directory => exact driven_invoke nofun
  | symlink => exact scpSendSymlink_driven _ _ _
  | regular | other => exact scpSendFile_driven _ _

theorem readdirLoop_driven (cfg : Config) (dir : Handle) (pos : Nat) (l r : Path) :
    Driven b (readdirLoopBody cfg dir pos l r) := by
  have hnext : Driven b (Sender.invoke (.readdirLoop dir (pos + 1) l r)) := driven_invoke nofun
  have hobject : ∀ {p : Sender Int}, Driven b p → Driven b (do
      if (← p) ≠ 0 then return -1
      Sender.invoke (.readdirLoop dir (pos + 1) l r)) := fun hp =>
    .bind hp fun _ => .ite .done hnext
  refine .ask ⟨id, False.elim⟩ fun name => ?_
  cases name with
  | finish | failure => exact .done
  | entry name =>
    refine .ite hnext (.bind ?_ fun st => ?_)
    · exact .ite (.ask ⟨id, False.elim⟩ fun _ => .done)
        (.ask ⟨id, False.elim⟩ fun _ => .done)
    · cases st with
      | none => exact hnext
      | some st =>
        cases hk : st.kind with
        | directory =>
          simp only [hk]
          exact .ite (hobject (driven_invoke nofun)) hnext
        | symlink =>
          simp only [hk]
          exact hobject (scpSendSymlink_driven _ _ _)
        | regular | other =>
          simp only [hk]
          exact hobject (scpSendFile_driven _ _)

theorem scpSendDirectory_driven (l r : Path) : Driven b (scpSendDirectoryBody l r) := by
  refine .ask ⟨id, False.elim⟩ fun dir => ?_
  cases dir with
  | none => exact .done
  | some dir =>
    have hclose : ∀ (b : Bool) (x : Int), Driven b (do Sender.ask (.closedir dir); return x) :=
      fun _ _ => .ask ⟨id, False.elim⟩ fun _ => .done
    refine .ask ⟨id, False.elim⟩ fun _ => driven_open (hclose _ _) fun wr => ?_
    refine .bind (sendSessionBuf_driven _ _) fun _ => .ite (hclose _ _) ?_
    refine .bind (driven_invoke nofun) fun _ => .ite (hclose _ _) ?_
    refine .ask ⟨id, False.elim⟩ fun _ => .ask ⟨id, False.elim⟩ fun _ => ?_
    exact .bind (sendSessionBuf_driven _ _) fun _ => .ite (hclose _ _) (hclose _ _)

theorem bodies_driven (cfg : Config) (b : Bool) (c : Sender.Call) (hc : Polls c → b = true) :
    Driven b (bodies cfg c) := by
  cases c with
  | sendDirectory l r => exact scpSendDirectory_driven l r
  | readdirLoop dir pos l r => exact readdirLoop_driven cfg dir pos l r
  | waitForSlot | drainPendingAcks | waitForRdmaWriteCompletion =>
    obtain rfl := hc trivial
    exact driven_working (polls_working cfg _ trivial)

/-! ## The handled operations -/

variable {gid : Bool} {cfg : Config} {n : Nat} {c : Ctx} {t : Resources}

/-- The precondition of a part of the client. -/
abbrev ClientSafe (gid : Bool) (cfg : Config) (n : Nat) {α : Type} (p : Life Sender.signature α)
    (Q : α → Ctx × Resources → Prop) (s : Ctx × Resources) : Prop :=
  Safe ((sender gid).bodies (bodies cfg)) (senderContext true) n p Q s

theorem apply_sessionEstablished {u : Sender.Update} (h : ¬ Connects (.update u)) (c : Ctx) :
    (u.apply c).sessionEstablished = c.sessionEstablished := by
  cases u <;> first | rfl | exact absurd trivial h

theorem senderOp_safe {o : Sender.Op} (ho : senderPhases.ops b o)
    (hs : Opened b c.sessionEstablished t) :
    ClientSafe gid cfg n (sender gid o) (fun r s => senderPhases.answers o r ∧
      Opened b s.1.sessionEstablished s.2) (c, t) := by
  have hin : NeedsSession o → c.sessionEstablished = true ∧ During t := fun hn => by
    have h := hs.opened (ho.2 hn)
    have hr := hs.ready
    rw [h] at hr
    exact ⟨h, hr⟩
  cases o with
  | sockEstablished | registerMr | exchange | queryQp | modifyQp | transDestroy =>
    exact absurd trivial ho.1
  | postRecv buf wrId =>
    obtain ⟨hc, hd⟩ := hin trivial
    refine wp.op (D := duties Sender.signature Ctx) trivial fun r hr => ?_
    refine (postReceiveCdc_safe (hd.holds hd.cdcMr (by decide))
      (hd.holds hd.qp (by decide))).mono ?_
    rintro r _ ⟨rfl, -⟩
    exact ⟨trivial, hs⟩
  | postWrite sges wrLen remote =>
    obtain ⟨hc, hd⟩ := hin trivial
    refine (postSend_safe hd (messageOf sges)).mono ?_
    rintro r _ ⟨rfl, hr⟩
    exact ⟨hr, by rw [hc]; exact hd.message _, fun _ => hc⟩
  | postSend msg =>
    obtain ⟨hc, hd⟩ := hin trivial
    refine (postSendCdc_safe hd).mono ?_
    rintro r _ rfl
    exact ⟨trivial, hs⟩
  | waitCompletion site maxWc timeout =>
    obtain ⟨hc, hd⟩ := hin trivial
    have hheld : ∀ f ∈ [Field.cq, .compChannel, .epollFd], t.Held f := by
      simp only [List.forall_mem_cons]
      exact ⟨hd.holds hd.cq (by decide), hd.holds hd.compChannel (by decide),
        hd.holds hd.epollFd (by decide), nofun⟩
    exact safe_use hheld (safe_run fun _ _ => ⟨trivial, hs⟩) fun _ =>
      safe_run fun _ _ => ⟨trivial, hs⟩
  | update u =>
    have hu := apply_sessionEstablished ho.1 c
    cases u <;> first
      | exact absurd trivial ho.1
      | exact safe_run fun _ _ => ⟨trivial, hu ▸ hs⟩
  | _ => exact safe_run fun _ _ => ⟨trivial, hs⟩

/-! ## The session of the client -/

/-- On the way to a session: the socket is there, and then the regions are. -/
def Connected (s : Ctx × Resources) : Prop :=
  s.1.sessionEstablished = false ∧ Before s.2 ∧ s.2.var .sock ≠ none

def Exchanging (s : Ctx × Resources) : Prop :=
  s.1.sessionEstablished = false ∧ s.1.cdcRecvSlots ≠ 0 ∧ Registered s.2

theorem sender_connecting : Connecting (sender gid) verbs ((sender gid).bodies (bodies cfg))
    (semantics (senderContext true) true) (duties Sender.signature Ctx) Connected Exchanging where
  mrCreate n := by
    rintro ⟨c, t⟩ ⟨hc, hb, hsock⟩
    refine Handler.wp_bind (Handler.wp_ask (mrCreate_safe false hb hsock)) ?_
    rintro _ ⟨_, t'⟩ ⟨rfl, rfl, hr⟩
    refine Handler.wp_bind (P := fun _ s => Exchanging s)
      (Handler.wp_ask (safe_run fun _ _ => ⟨hc, (by decide : rdmaCdcRecvSlots ≠ 0), hr⟩)) ?_
    exact fun _ _ h => wp.done ⟨rfl, h⟩
  exchange n := by
    rintro ⟨c, t⟩ ⟨hc, hslots, hr⟩
    refine Handler.wp_ask ((exchange_safe gid hr).mono ?_)
    rintro _ ⟨_, t'⟩ ⟨rfl, rfl, hr'⟩
    exact ⟨rfl, hc, hslots, hr'⟩
  queryQp n := by
    rintro ⟨c, t⟩ ⟨hc, hslots, hr⟩
    have hqp := hr.sound.holds (f := .qp) (by decide) hr.qp
    refine Handler.wp_ask (safe_use (List.forall_mem_singleton.mpr hqp) ?_ fun _ => ?_) <;>
      exact safe_run fun r hallow => ⟨hallow rfl, hc, hslots, hr⟩
  modifyQp st n := by
    rintro ⟨c, t⟩ ⟨hc, hslots, hr⟩
    have hqp := hr.sound.holds (f := .qp) (by decide) hr.qp
    refine Handler.wp_ask (wp.op (D := duties Sender.signature Ctx)
      (List.forall_mem_singleton.mpr hqp) fun r hsucc => wp.done ⟨?_, hc, hslots, hr⟩)
    exact hsucc.2 rfl nofun
  acquirePostBuf n := by
    rintro ⟨c, t⟩ ⟨hc, hslots, hr⟩
    refine Handler.wp_bind (P := fun r s => r = c ∧ s = (c, t))
      (Handler.wp_ask (safe_run fun r hrc => ⟨hrc, rfl⟩)) ?_
    rintro _ _ ⟨rfl, rfl⟩
    rw [if_neg hslots]
    refine Handler.wp_bind (P := fun _ s => Exchanging s)
      (Handler.wp_ask (safe_run fun _ _ => ⟨hc, hslots, hr⟩)) ?_
    exact fun _ _ h => wp.done ⟨nofun, h⟩
  postRecv buf n := by
    rintro ⟨c, t⟩ ⟨hc, hslots, hr⟩
    refine Handler.wp_ask (wp.op (D := duties Sender.signature Ctx) trivial fun r hrc => ?_)
    obtain rfl : r = c := hrc
    refine (postReceiveCdc_safe (hr.sound.holds (by decide) hr.cdcMr)
      (hr.sound.holds (by decide) hr.qp)).mono ?_
    rintro r _ ⟨rfl, hok⟩
    exact ⟨hok hc, hc, hslots, hr⟩

/-- A failure leaves a socket behind at most. -/
theorem scpPrepareTransferResources_safe {wr : TransWr} (hc : c.sessionEstablished = false)
    (hb : Before t) : ClientSafe gid cfg n ((sender gid).run (scpPrepareTransferResources wr))
      (fun r s => s.1.sessionEstablished = false ∧ (r.isSome → Exchanging s) ∧
        (r = none → Before s.2)) (c, t) := by
  refine Handler.wp_bind (Handler.wp_ask (sockEstablished_safe hb)) ?_
  rintro r ⟨c₁, t₁⟩ ⟨rfl, hb₁, hsock⟩
  cases r with
  | false => exact wp.done ⟨hc, nofun, fun _ => hb₁⟩
  | true =>
    refine Handler.wp_bind (sender_connecting.rdmaTransInit ⟨hc, hb₁, hsock rfl⟩) ?_
    rintro _ s ⟨rfl, hs⟩
    exact wp.done ⟨hs.1, fun _ => hs, nofun⟩

theorem establishSession_safe {wr : TransWr} (hs : Opened b c.sessionEstablished t) :
    ClientSafe gid cfg n ((sender gid).run (Sender.establishSession wr))
      (fun r s => Opened b s.1.sessionEstablished s.2 ∧
        (r.isSome → Opened true s.1.sessionEstablished s.2)) (c, t) := by
  refine Handler.wp_bind (P := fun r s => r = c ∧ s = (c, t))
    (Handler.wp_ask (safe_run fun r hrc => ⟨hrc, rfl⟩)) ?_
  rintro c₁ _ ⟨rfl, rfl⟩
  cases hc : c₁.sessionEstablished with
  | true => exact wp.done ⟨hs, fun _ => ⟨hs.ready, fun _ => hc⟩⟩
  | false =>
    rw [hc] at hs
    refine Handler.wp_bind (scpPrepareTransferResources_safe hc hs.ready) ?_
    rintro r ⟨c₂, t₂⟩ ⟨hc₂, hok, hfail⟩
    cases r with
    | some wr =>
      obtain ⟨-, -, hreg⟩ := hok rfl
      have hd : Opened true true (t₂.setVar .sessionMr (t₂.var .sgeMr)) :=
        ⟨hreg.during, fun _ => rfl⟩
      refine Handler.wp_bind (P := fun _ s => Opened true s.1.sessionEstablished s.2)
        (Handler.wp_ask ?_) fun _ _ h => wp.done ⟨⟨h.ready, fun _ => h.opened rfl⟩, fun _ => h⟩
      exact wp.op (D := duties Sender.signature Ctx) trivial fun _ _ => safe_run fun _ _ => hd
    | none =>
      refine wp.done ⟨?_, nofun⟩
      rw [hc₂]
      exact ⟨hfail rfl, fun h => absurd (hs.opened h) nofun⟩

/-! ## `main` -/

theorem driven_safe {α : Type} {p : Sender α} (hp : Driven b p)
    (hs : Opened b c.sessionEstablished t) :
    ClientSafe gid cfg n ((sender gid).run p) (fun _ s => Opened b s.1.sessionEstablished s.2)
      (c, t) :=
  hp.handled (I := fun b (s : Ctx × Resources) => Opened b s.1.sessionEstablished s.2)
    (bodies_driven cfg)
    (fun _ h => ⟨h.ready, nofun⟩) (fun _ _ _ _ ho h => senderOp_safe ho h)
    (fun _ _ _ _ h => establishSession_safe h) (fun _ _ => trivial) hs

theorem scpSenderRun_safe {l r : Path} (hs : Opened false c.sessionEstablished t) :
    ClientSafe gid cfg n ((sender gid).run (scpSenderRun cfg l r))
      (fun _ s => Opened false s.1.sessionEstablished s.2) (c, t) := by
  refine Handler.wp_bind (driven_safe (.ask ⟨id, False.elim⟩ fun _ => .done) hs) ?_
  rintro (_ | _) ⟨c₁, t₁⟩ h₁
  · exact wp.done h₁
  refine Handler.wp_bind (driven_safe (b := false) ?_ h₁) ?_
  · exact .ite (.ask ⟨id, False.elim⟩ fun _ => .done)
      (.ask ⟨id, False.elim⟩ fun _ => .done)
  rintro (_ | st) ⟨c₂, t₂⟩ h₂
  · exact wp.done h₂
  refine Handler.wp_bind (driven_safe (sendObject_driven l r st) h₂) ?_
  rintro ret ⟨c₃, t₃⟩ h₃
  by_cases hret : ret = 0
  · subst hret
    have hask : ∀ (o : Sender.Op), ¬ Connects o → ¬ NeedsSession o → Driven false (Sender.ask o) :=
      fun o hc hn => .ask ⟨hc, (absurd · hn)⟩ fun _ => .done
    refine Handler.wp_bind (driven_safe (hask (.store _ _) id id) h₃) ?_
    rintro _ ⟨c₄, t₄⟩ h₄
    refine Handler.wp_bind (driven_safe (hask (.update (.setSge _)) id id) h₄) ?_
    rintro _ ⟨c₅, t₅⟩ h₅
    -- the session is established where the context says so
    refine Handler.wp_bind (P := fun r s => r = c₅ ∧ s = (c₅, t₅))
      (Handler.wp_ask (safe_run fun r hrc => ⟨hrc, rfl⟩)) ?_
    rintro c₆ _ ⟨rfl, rfl⟩
    cases hc : c₆.sessionEstablished with
    | false => exact wp.done h₅
    | true =>
      refine Handler.wp_bind (driven_safe (scpRdmaSendSync_driven _) ⟨h₅.ready, fun _ => hc⟩) ?_
      exact fun _ _ h => wp.done ⟨h.ready, nofun⟩
  · rw [if_pos hret]
    exact wp.done h₃

theorem senderMain_safe (l r : Path) :
    ClientSafe gid cfg n (senderMain gid cfg l r) (fun _ _ => True)
      (Sender.initCtx, atStart true) := by
  refine wp.bind (scpRdmaInit_safe true) ?_
  rintro r ⟨_, t⟩ ⟨rfl, hb⟩
  by_cases hr : r = 0
  · subst hr
    refine wp.bind (scpSenderRun_safe ⟨hb rfl, nofun⟩) ?_
    rintro _ ⟨c, t⟩ hs
    refine wp.bind (scpRdmaDestroy_safe hs.sound) fun _ _ _ => wp.done trivial
  · rw [if_pos hr]
    exact wp.done trivial

end ScpRdma.Lifecycle
