import ScpRdma.Receiver.Semantics

/-!
# Decoding one packet

Rules for the operations of the receiver, in any world and under any duties, and what the
dispatch on a packet of a feed does: its reads stay in the packet, and its file calls are
those of `applyPacket`.
-/
namespace ScpRdma.Receiver
open Foundations

variable {F : Type} {M : Semantics fileSignature F} {W : World F} {D : Duties signature (State F)}
  {n : Nat} {α β : Type} {Q : α → State F → Prop} {s t u : State F}

/-- The precondition of a part of the receiver: it meets the duties `D` for `n` steps. -/
abbrev Meets (M : Semantics fileSignature F) (W : World F) (D : Duties signature (State F))
    (n : Nat) (p : Receiver α) (Q : α → State F → Prop) (s : State F) : Prop :=
  wp bodies (semantics M W) D n p Q s

section Rules

theorem meets_get {f : Ctx → Receiver α} (hD : D.op .get s) (h : Meets M W D n (f s.ctx) Q s) :
    Meets M W D n (get >>= f) Q s :=
  wp.op hD (by rintro r ⟨rfl, -⟩; exact h)

theorem meets_update {up : Update} {f : Unit → Receiver α} (hD : D.op (.update up) s)
    (h : Meets M W D n (f ()) Q { s with ctx := up.apply s.ctx }) :
    Meets M W D n (update up >>= f) Q s :=
  wp.op hD fun _ _ => h

/-- Any other operation, by its duty and its responses. -/
theorem meets_ask {o : Op} {f : Response o → Receiver α} (hD : D.op o s)
    (h : ∀ r, Possible M o s r → W o s r → Meets M W D n (f r) Q (next M o s r)) :
    Meets M W D n (ask o >>= f) Q s :=
  wp.op hD fun r hr => h r hr.1 hr.2

/-- A credit that is spent if there is one. -/
theorem meets_charge {I : State F → Prop} {q : Prop} {_ : Decidable q} {k : Int}
    {p : Unit → Receiver α} (hD : D.op (.update (.setCredits k)) s)
    (hI : ∀ t, I t → I { t with ctx := (Update.setCredits k).apply t.ctx }) (hs : I s)
    (h : ∀ t, I t → Meets M W D n (p ()) Q t) :
    Meets M W D n (if q then update (.setCredits k) >>= p else p ()) Q s :=
  wp.ite (fun _ => meets_update hD (h _ (hI s hs))) fun _ => h s hs

/-- File calls change the files alone, in some way that their semantics allows. -/
theorem meets_files {p : Files α} {f : α → Receiver β} {Q : β → State F → Prop}
    (hD : ∀ o os, D.op (.file o) { s with os := os })
    (h : ∀ a os, Program.Outcome M p s.os a os → Meets M W D n (f a) Q { s with os := os }) :
    Meets M W D n (files p >>= f) Q s := by
  induction p generalizing s with
  | done a => exact h a s.os .done
  | op o k ih =>
    refine wp.op (hD o s.os) fun r hr => ih r (fun o os => hD o os) fun a os hout => ?_
    exact h a os (.op r hr.1 hout)
  | call c k => cases c

/-- Creating directories; of an empty path nothing is said. -/
theorem meets_mkdirRecursive {path : Path} {f : Int → Receiver α}
    (hD : ∀ o os, D.op (.file o) { s with os := os })
    (hU : path = [] → D.op (.undefined .emptyPath) s)
    (h : ∀ r os, Program.Outcome M (scpMkdirRecursive path) s.os r os →
      Meets M W D n (f r) Q { s with os := os }) :
    Meets M W D n (mkdirRecursive path >>= f) Q s := by
  unfold mkdirRecursive
  split
  · exact wp.op (hU ‹_›) fun r => nomatch r
  · exact meets_files hD h

end Rules

/-! ## Reading the packet in hand -/

section Feed

variable {pkts : Feed} {outputDir : Option Path} {os₀ : F} {x : Slot} {p : Packet}

/-- The precondition of a part of the receiver where a feed is announced. -/
abbrev Serves (M : Semantics fileSignature F) (pkts : Feed) (outputDir : Option Path) (os₀ : F)
    (n : Nat) (p : Receiver α) (Q : α → State F → Prop) (s : State F) : Prop :=
  Meets M (.feed pkts) (duties M pkts outputDir os₀) n p Q s

/-- The packet `p` of slot `x` was announced and is not acknowledged yet. -/
structure InHand (pkts : Feed) (x : Slot) (p : Packet) (s : State F) : Prop where
  current : ∃ loads, s.ledger.current = some ⟨UInt8.ofNat x.val, loads⟩
  packet : pkts s.ledger.acked.length = (x, p)

theorem InHand.ne_none (h : InHand pkts x p s) : s.ledger.current ≠ none := by
  obtain ⟨loads, hl⟩ := h.current
  simp [hl]

theorem InHand.read {off : Nat} {bs : Bytes} (h : InHand pkts x p s) :
    InHand pkts x p { s with ledger := s.ledger.read off bs } := by
  obtain ⟨loads, hl⟩ := h.current
  exact ⟨⟨loads ++ [(off, bs)], by simp [Ledger.read, hl]⟩, h.packet⟩

theorem InHand.mayFile (h : InHand pkts x p s) :
    s.ledger.current = none → s.ledger.acked = [] := fun hn => absurd hn h.ne_none

/-- The state with another record of what was read. -/
def State.hold (s : State F) (c : Option Decoded) : State F :=
  { s with ledger := { s.ledger with current := c } }

theorem serves_load {i len : Nat} {f : Bytes → Receiver α} (h : InHand pkts x p s)
    (hin : i + len ≤ p.encode.length)
    (hf : ∀ c, InHand pkts x p (s.hold c) →
      Serves M pkts outputDir os₀ n (f (field p.encode i len)) Q (s.hold c)) :
    Serves M pkts outputDir os₀ n (load (slotBase x + i) len >>= f) Q s := by
  refine meets_ask ⟨h.ne_none, i, by rw [h.packet], by rwa [h.packet]⟩ fun bs _ hbs => ?_
  obtain rfl : bs = field p.encode i len := by
    have := hbs i (by rw [h.packet]) (by rwa [h.packet])
    rwa [h.packet] at this
  exact hf _ h.read

theorem serves_loadCString {i : Nat} {f : Bytes → Receiver α} (h : InHand pkts x p s)
    (hin : 0 ∈ p.encode.drop i)
    (hf : ∀ c, InHand pkts x p (s.hold c) →
      Serves M pkts outputDir os₀ n (f (cString (p.encode.drop i))) Q (s.hold c)) :
    Serves M pkts outputDir os₀ n (loadCString (slotBase x + i) >>= f) Q s := by
  refine meets_ask ⟨h.ne_none, i, by rw [h.packet], by rwa [h.packet]⟩ fun bs _ hbs => ?_
  obtain rfl : bs = cString (p.encode.drop i) := by
    have := hbs i (by rw [h.packet]) (by rwa [h.packet])
    rwa [h.packet] at this
  exact hf _ h.read

/-! ## The dispatch -/

/-- The totals after a packet. -/
def Ctx.tally (c : Ctx) (τ : Tally) : Ctx := { c with
  totalBytes := c.totalBytes + UInt64.ofNat τ.bytes
  totalFiles := c.totalFiles + UInt32.ofNat τ.files
  totalDirs := c.totalDirs + UInt32.ofNat τ.dirs
  totalSymlinks := c.totalSymlinks + UInt32.ofNat τ.symlinks }

@[simp] theorem Ctx.tally_none (c : Ctx) : c.tally .none = c := by
  simp [tally, Tally.none]

/-- The handling of `p` made the file calls of `applyPacket` and counted what it counts. -/
structure Handled (M : Semantics fileSignature F) (pkts : Feed) (x : Slot) (p : Packet)
    (loc : Locals) (s : State F) (loc' : Locals) (t : State F) : Prop where
  effect : ∃ τ, Program.Outcome M (applyPacket ⟨loc, s.ctx.metaType⟩ p) s.os
      (⟨loc', t.ctx.metaType⟩, τ) t.os ∧
    t.ctx = { s.ctx.tally τ with metaType := t.ctx.metaType }
  qp : t.qp = s.qp
  ledger : t.ledger = { s.ledger with current := t.ledger.current }
  inHand : InHand pkts x p t

theorem InHand.files (h : InHand pkts x p s) (os : F) : InHand pkts x p { s with os := os } :=
  ⟨h.1, h.2⟩

theorem InHand.update (h : InHand pkts x p s) (up : Update) :
    InHand pkts x p { s with ctx := up.apply s.ctx } := ⟨h.1, h.2⟩

theorem serves_mkdirParent {path : Path} {f : Unit → Receiver α} (h : InHand pkts x p s)
    (hf : ∀ os, Program.Outcome M (makeParent path) s.os () os →
      Serves M pkts outputDir os₀ n (f ()) Q { s with os := os }) :
    Serves M pkts outputDir os₀ n (mkdirParent path >>= f) Q s := by
  unfold mkdirParent
  unfold makeParent at hf
  cases hparent : parentPath path with
  | none =>
    rw [hparent] at hf
    exact hf s.os .done
  | some parent =>
    rw [hparent] at hf
    refine wp.bind (R := fun _ t => ∃ r os, t = { s with os := os } ∧
      Program.Outcome M (scpMkdirRecursive parent) s.os r os) ?_ ?_
    · refine meets_mkdirRecursive (fun _ _ => h.mayFile) (fun _ => trivial) fun r os hr => ?_
      exact wp.done ⟨r, os, rfl, hr⟩
    · rintro ⟨⟩ _ ⟨r, os, rfl, hr⟩
      exact hf os (hr.bind .done)

theorem handleFileMeta_spec {loc : Locals} {name : Bytes} {size mode : Nat} {type : FileType}
    {chunks : Nat} (h : InHand pkts x (.fileMeta name size mode type chunks) s) :
    Serves M pkts outputDir os₀ n (handleFileMeta loc (slotBase x))
      (Handled M pkts x (.fileMeta name size mode type chunks) loc s) s := by
  obtain ⟨rest, hname⟩ := Packet.drop_fileName name size mode type chunks
  have hlen : (Packet.fileMeta name size mode type chunks).encode.length = 300 :=
    Packet.length_encode _
  have hstring : cString (strncpyField name 255 256 ++ rest) = recordName name :=
    cString_strncpyField (by decide)
  have htype : UInt8.ofNat (leNat [type.byte]) = type.byte := by simp [leNat]
  have hmode : leNat (leBytes 4 mode) = mode % 2 ^ 32 := leNat_leBytes 4 mode
  unfold handleFileMeta
  refine serves_load h (by simp [hlen, fileTypeOff]) fun c₁ h₁ => ?_
  rw [fileTypeOff, Packet.field_fileType]
  dsimp only
  rw [htype]
  refine meets_update trivial ?_
  refine serves_loadCString (h₁.update _) ?_ fun c₂ h₂ => ?_
  · rw [fileNameOff, hname]
    exact List.mem_append_left _ (zero_mem_strncpyField (by decide))
  rw [fileNameOff, hname, hstring]
  refine meets_files (fun _ _ => h₂.mayFile) fun isDir os₁ hdir => ?_
  cases isDir with
  | true =>
    refine meets_files (fun _ _ => h₂.mayFile) fun _ os₂ hclose => wp.done ?_
    refine ⟨⟨.none, ?_, by simp [State.hold, Update.apply]⟩, rfl, rfl, h₂.1, h₂.2⟩
    exact hdir.bind (hclose.bind .done)
  | false =>
    refine serves_mkdirParent (h₂.files _) fun os₂ hparent => ?_
    refine meets_files (fun _ _ => h₂.mayFile) fun _ os₃ hclose => ?_
    have hsym : leNat [type.byte] = FileType.symlink.byte.toNat ↔
        type.byte = FileType.symlink.byte := by
      rw [← UInt8.toNat_inj]
      simp [leNat]
    by_cases hlink : type.byte = FileType.symlink.byte
    · rw [if_neg (not_not.mpr (hsym.mpr hlink))]
      refine wp.done ⟨⟨.none, ?_, by simp [State.hold, Update.apply]⟩, rfl, rfl, h₂.1, h₂.2⟩
      refine hdir.bind (hparent.bind (hclose.bind ?_))
      rw [if_neg (not_not.mpr hlink)]
      exact .done
    · rw [if_pos (mt hsym.mp hlink)]
      refine serves_load (h₂.files _) (by simp [hlen, fileModeOff]) fun c₃ h₃ => ?_
      rw [fileModeOff, Packet.field_fileMode, hmode]
      refine meets_ask h₃.mayFile fun fd hfd _ => ?_
      refine meets_update trivial (wp.done ?_)
      refine ⟨⟨{ Tally.none with files := 1 }, ?_, by simp [State.hold, Update.apply,
        Ctx.tally, Tally.none, next]⟩, rfl, rfl, h₃.1, h₃.2⟩
      refine hdir.bind (hparent.bind (hclose.bind ?_))
      rw [if_pos hlink]
      exact .op fd hfd .done

theorem handleFileData_spec {loc : Locals} {i off : Nat} {payload : Bytes}
    (h : InHand pkts x (.fileData i off payload) s) (hfit : (Packet.fileData i off payload).Fits) :
    Serves M pkts outputDir os₀ n (handleFileData loc (slotBase x))
      (Handled M pkts x (.fileData i off payload) loc s) s := by
  have hlen : (Packet.fileData i off payload).encode.length = 36 + payload.length :=
    Packet.length_encode _
  obtain ⟨-, hoff, hpay⟩ := hfit
  rw [scpChunkSize_eq] at hpay
  have hsize : leNat (leBytes 4 payload.length) = payload.length :=
    leNat_leBytes_of_lt (by omega)
  have hoffset : leNat (leBytes 8 off) = off := leNat_leBytes_of_lt (by omega)
  unfold handleFileData
  refine meets_get trivial ?_
  by_cases hlink : s.ctx.metaType = FileType.symlink.byte
  · rw [if_pos hlink]
    refine serves_load h (by simp [hlen, chunkSizeOff]; omega) fun c₁ h₁ => ?_
    rw [chunkSizeOff, Packet.field_chunkSize]
    dsimp only
    rw [hsize]
    refine serves_load h₁ (hlen ▸ Nat.add_le_add_left (targetLen_le _) 36) fun c₂ h₂ => ?_
    have htarget : payload.take (targetLen payload.length) = payload.take (scpMaxPathLen - 1) := by
      unfold targetLen
      split
      · rfl
      · rw [List.take_length, List.take_of_length_le (by omega)]
    rw [dataChunkSize, Packet.field_payload, htarget]
    refine meets_files (fun _ _ => h₂.mayFile) fun ok os hos => ?_
    have heffect : ∀ {b : View × Tally} {os' : F},
        Program.Outcome M
          (if ok then pure (⟨loc, s.ctx.metaType⟩, { Tally.none with symlinks := 1 })
            else pure (⟨loc, s.ctx.metaType⟩, Tally.none)) os b os' →
        Program.Outcome M (applyFileData ⟨loc, s.ctx.metaType⟩ off payload) s.os b os' := by
      intro b os' hb
      unfold applyFileData
      rw [if_pos hlink]
      exact hos.bind hb
    cases ok with
    | true =>
      refine meets_update trivial (wp.done ?_)
      exact ⟨⟨{ Tally.none with symlinks := 1 }, heffect .done, by simp [State.hold, Update.apply,
        Ctx.tally, Tally.none]⟩, rfl, rfl, h₂.1, h₂.2⟩
    | false =>
      exact wp.done ⟨⟨.none, heffect .done, by simp [State.hold]⟩, rfl, rfl, h₂.1, h₂.2⟩
  · rw [if_neg hlink]
    cases hfd : loc.currentFd with
    | none =>
      refine wp.done ⟨⟨.none, ?_, by simp⟩, rfl, rfl, h.1, h.2⟩
      simp only [applyPacket, applyFileData, if_neg hlink, hfd]
      exact .done
    | some fd =>
      refine serves_load h (by simp [hlen, chunkOffsetOff]; omega) fun c₁ h₁ => ?_
      rw [chunkOffsetOff, Packet.field_offset]
      dsimp only
      rw [hoffset]
      refine serves_load h₁ (by simp [hlen, chunkSizeOff]; omega) fun c₂ h₂ => ?_
      rw [chunkSizeOff, Packet.field_chunkSize]
      rw [hsize]
      refine serves_load h₂ (by simp [hlen, dataChunkSize]) fun c₃ h₃ => ?_
      rw [dataChunkSize, Packet.field_payload, List.take_length]
      refine meets_files (fun _ _ => h₃.mayFile) fun _ os hos => ?_
      refine meets_update trivial (wp.done ?_)
      refine ⟨⟨{ Tally.none with bytes := payload.length }, ?_, by simp [State.hold, Update.apply,
        Ctx.tally, Tally.none]⟩, rfl, rfl, h₃.1, h₃.2⟩
      simp only [applyPacket, applyFileData, if_neg hlink, hfd]
      exact hos.bind .done

theorem handleDirEnter_spec {loc : Locals} {name : Bytes} (h : InHand pkts x (.dirEnter name) s) :
    Serves M pkts outputDir os₀ n (handleDirEnter loc (slotBase x))
      (Handled M pkts x (.dirEnter name) loc s) s := by
  obtain ⟨rest, hname⟩ := Packet.drop_dirName name
  have hstring : cString (strncpyField name 255 256 ++ rest) = recordName name :=
    cString_strncpyField (by decide)
  unfold handleDirEnter
  refine serves_loadCString h ?_ fun c h₁ => ?_
  · rw [dirNameOff, hname]
    exact List.mem_append_left _ (zero_mem_strncpyField (by decide))
  rw [dirNameOff, hname, hstring]
  refine meets_mkdirRecursive (fun _ _ => h₁.mayFile) (fun _ => trivial) fun r os hos => ?_
  refine meets_update trivial (wp.done ?_)
  exact ⟨⟨{ Tally.none with dirs := 1 }, hos.bind .done, by simp [State.hold, Update.apply,
    Ctx.tally, Tally.none]⟩, rfl, rfl, h₁.1, h₁.2⟩

theorem handleCommand_spec {loc : Locals} (h : InHand pkts x p s) (hfit : p.Fits) :
    Serves M pkts outputDir os₀ n (handleCommand loc (slotBase x) p.cmd.byte.toNat)
      (Handled M pkts x p loc s) s := by
  cases p with
  | fileMeta name size mode type chunks => exact handleFileMeta_spec h
  | fileData i off payload => exact handleFileData_spec h hfit
  | dirEnter name => exact handleDirEnter_spec h
  | dirLeave | transferEnd =>
    refine meets_files (fun _ _ => h.mayFile) fun ⟨⟩ os hos => wp.done ?_
    exact ⟨⟨.none, hos.bind .done, by simp⟩, rfl, rfl, h.1, h.2⟩

end Feed

end ScpRdma.Receiver
