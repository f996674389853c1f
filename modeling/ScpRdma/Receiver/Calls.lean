import ScpRdma.Receiver.Files

/-!
# Which file calls a part of the receiver makes

Each part with the calls that it may make, whatever these answer.
-/
namespace ScpRdma.Receiver
open Foundations

/-- The directories that `scp_mkdir_recursive` tries to create. -/
def mkdirPaths (path : Path) : List Path := mkdirTarget path :: slashPrefixes (mkdirTarget path)

variable {P : FileOp → Prop} {α β : Type}

/-- A part of the receiver that makes no other file calls than these. -/
abbrev Calls (P : FileOp → Prop) (p : Files α) : Prop :=
  Program.Only (S := fileSignature) P (fun _ => False) p

theorem mkdirAll_calls {paths : List Path} (h : ∀ path ∈ paths, P (.mkdir path)) :
    Calls P (mkdirAll paths) := by
  induction paths with
  | nil => exact .done
  | cons path paths ih =>
    obtain ⟨hpath, hrest⟩ := List.forall_mem_cons.mp h
    refine .bind (.ask hpath) fun r => ?_
    cases r with
    | error => exact .done
    | created | «exists» => exact ih hrest

theorem scpMkdirRecursive_calls {path : Path} (h : ∀ dir ∈ mkdirPaths path, P (.mkdir dir)) :
    Calls P (scpMkdirRecursive path) := by
  refine .bind (.ask (h _ (List.mem_cons_self ..))) fun r => ?_
  cases r with
  | created | «exists» => exact .done
  | error =>
    refine mkdirAll_calls fun dir hdir => h dir ?_
    rcases List.mem_append.mp hdir with hdir | hdir
    · exact List.mem_cons_of_mem _ hdir
    · exact List.mem_singleton.mp hdir ▸ List.mem_cons_self ..

theorem closeCurrent_calls {fd : Option Handle} (h : ∀ fd, P (.close fd)) :
    Calls P (closeCurrent fd) := by
  cases fd with
  | none => exact .done
  | some fd => exact .ask (h fd)

theorem isDirectory_calls {path : Path} (h : P (.stat path)) : Calls P (isDirectory path) := by
  refine .bind (.ask h) fun r => ?_
  cases r <;> exact .done

theorem makeParent_calls {path : Path}
    (h : ∀ parent, parentPath path = some parent → ∀ dir ∈ mkdirPaths parent, P (.mkdir dir)) :
    Calls P (makeParent path) := by
  unfold makeParent
  cases hp : parentPath path with
  | none => exact .done
  | some parent => exact .bind (scpMkdirRecursive_calls (h parent hp)) fun _ => .done

section Ensures

variable {F : Type} {M : Semantics fileSignature F} {α β : Type} {os : F}

theorem ensures_ask {o : FileOp} {f : FileResponse o → Files β} {Q : β → F → Prop}
    (h : ∀ r, M.allow o os r → Program.Ensures M (f r) Q (M.next o os r)) :
    Program.Ensures M (Files.ask o >>= f) Q os := h

theorem ensures_last {o : FileOp} {Q : FileResponse o → F → Prop}
    (h : ∀ r, M.allow o os r → Q r (M.next o os r)) : Program.Ensures M (Files.ask o) Q os := h

theorem ensures_step {p : Files α} {f : α → Files β} {Q : β → F → Prop}
    (hp : Program.Ensures M p (fun _ _ => True) os)
    (hf : ∀ a os, Program.Ensures M (f a) Q os) : Program.Ensures M (p >>= f) Q os :=
  hp.bind fun a t _ => hf a t

theorem ensures_true {p : Files α} : Program.Ensures M p (fun _ _ => True) os := by
  induction p generalizing os with
  | done a => trivial
  | op o k ih => exact fun r _ => ih r
  | call c k => trivial

end Ensures

end ScpRdma.Receiver
