import ScpRdma.Foundations.Program
import ScpRdma.Foundations.Bytes

/-!
# Selecting an address

`sock_connect`: every resolved address is tried in turn, also behind one that connected. The
socket of the last address is the result, and a socket that connected before stays open.
-/
namespace ScpRdma.Connection.Address
open Foundations

structure AddrInfo where
  family : Int
  socktype : Int
  protocol : Int
  addr : Bytes

/-- `undefined` is the read of a list that was freed. -/
inductive Op where
  | getaddrinfo
  | freeaddrinfo
  | socket (ai : AddrInfo)
  | connect (fd : Nat) (addr : Bytes)
  | setReuseAddr (fd : Nat)
  | bind (fd : Nat) (addr : Bytes)
  | listen (fd : Nat)
  | accept (fd : Nat)
  | close (fd : Nat)
  | undefined

def Response : Op → Type
  | .getaddrinfo => Except Int (List AddrInfo)
  | .socket _ | .accept _ => Option Nat
  | .connect _ _ | .bind _ _ => Bool
  | .freeaddrinfo | .setReuseAddr _ | .listen _ | .close _ => Unit
  | .undefined => Empty

def signature : Signature := ⟨Op, Response, Empty, nofun⟩

instance : IsEmpty signature.Call := inferInstanceAs (IsEmpty Empty)

/-- A part of `sock_connect`. -/
abbrev Connecting := Program signature

abbrev ask (o : Op) : Connecting (Response o) := Program.ask (S := signature) o
abbrev connect (fd : Nat) (addr : Bytes) : Connecting Bool := ask (.connect fd addr)
abbrev bind (fd : Nat) (addr : Bytes) : Connecting Bool := ask (.bind fd addr)
abbrev close (fd : Nat) : Connecting Unit := ask (.close fd)

/-- `sock_connect_exit`; `resolved` says that there is a list of addresses. -/
def sockConnectExit (listenfd : Nat) (resolved : Bool) : Connecting Unit := do
  if listenfd ≠ 0 then
    close listenfd
  if resolved then
    ask .freeaddrinfo

/-- The loop over the addresses; `sockfd` is also the result of the function. A server whose
`bind` fails frees the list that it goes on to read. -/
def addressLoop (client : Bool) : List AddrInfo → Int → Connecting Int
  | [], sockfd => return sockfd
  | ai :: rest, _ => do
    match ← ask (.socket ai) with
    | none => addressLoop client rest (-1)
    | some fd =>
      if client then
        if ← connect fd ai.addr then
          addressLoop client rest fd
        else
          close fd
          addressLoop client rest (-1)
      else
        ask (.setReuseAddr fd)
        if ← bind fd ai.addr then
          ask (.listen fd)
          match ← ask (.accept fd) with
          | none => addressLoop client rest (-1)
          | some sockfd => addressLoop client rest sockfd
        else
          sockConnectExit fd true
          ask (.listen fd)
          let _ ← ask (.accept fd)
          return (← ask .undefined).elim

/-- `sock_connect`; `client` says that there is a server name. -/
def sockConnect (client : Bool) : Connecting Int := do
  match ← ask .getaddrinfo with
  | .error rc =>
    sockConnectExit 0 false
    return rc
  | .ok resolved => addressLoop client resolved 0

/-! ## The descriptors -/

/-- What happens at an address. -/
inductive Attempt where
  | noSocket
  | refused
  | connected
  deriving DecidableEq

/-- `attempts` are still to come; `inUse` are the descriptors of the process, `opened` those that
the function opened and has not closed, `connected` the sockets that connected. -/
structure Sockets where
  attempts : List Attempt
  inUse : List Nat
  opened : List Nat
  connected : List Nat

/-- A client's calls: a new socket is none of the open descriptors. -/
def semantics : Semantics signature Sockets where
  allow
    | .getaddrinfo, s, r => ∃ resolved, r = .ok resolved ∧ resolved.length = s.attempts.length
    | .socket _, s, r =>
      if s.attempts.head? = some .noSocket then r = none
      else ∃ fd, r = some fd ∧ fd ∉ s.inUse ∧ fd ∉ s.opened
    | .connect _ _, s, r => r = decide (s.attempts.head? = some .connected)
    | .close _, _, _ => True
    | _, _, _ => False
  next
    | .socket _, s, none => { s with attempts := s.attempts.tail }
    | .socket _, s, some fd => { s with opened := fd :: s.opened }
    | .connect fd _, s, true =>
      { s with attempts := s.attempts.tail, connected := fd :: s.connected }
    | .connect _ _, s, false => { s with attempts := s.attempts.tail }
    | .close fd, s, _ => { s with opened := s.opened.erase fd }
    | _, s, _ => s

/-- The result is a connected socket if and only if an address connected, and it is the only
one that is left open. -/
def Selects (attempts : List Attempt) (sockfd : Int) (s : Sockets) : Prop :=
  ((∃ fd ∈ s.connected, sockfd = fd) ↔ .connected ∈ attempts) ∧
    (.connected ∈ attempts → ∃ fd, sockfd = (fd : Nat) ∧ s.opened = [fd]) ∧
    (.connected ∉ attempts → s.opened = [])

/-- What the loop leaves behind: the sockets that connected are open, and the result is the last
one, if the last address connected. -/
structure Left (attempts : List Attempt) (s : Sockets) (sockfd : Int) (new : List Nat)
    (result : Int) (t : Sockets) : Prop where
  opened : t.opened = new ++ s.opened
  connected : t.connected = t.opened
  count : new.length = attempts.count .connected
  last : attempts.getLast? = some .connected → ∃ fd, new.head? = some fd ∧ result = (fd : Nat)
  failed : attempts.getLast? ≠ some .connected → result = if attempts = [] then sockfd else -1

theorem Left.cons {a : Attempt} {attempts : List Attempt} {s s' t : Sockets} {sockfd result : Int}
    {sockfd' : Int} {new : List Nat} (h : Left attempts s' sockfd' new result t) (first : List Nat)
    (hopened : s'.opened = first ++ s.opened)
    (hcount : first.length = if a = .connected then 1 else 0)
    (hlast : a = .connected → ∃ fd, first.head? = some fd ∧ sockfd' = (fd : Nat))
    (hfailed : a ≠ .connected → sockfd' = -1) :
    Left (a :: attempts) s sockfd (new ++ first) result t := by
  refine ⟨by rw [h.opened, hopened, List.append_assoc], h.connected, ?_, fun hl => ?_, fun hl => ?_⟩
  · simp only [List.length_append, h.count, hcount, List.count_cons, beq_iff_eq]
  · cases attempts with
    | nil =>
      have hnew := List.length_eq_zero_iff.mp h.count
      obtain ⟨fd, hfd, hs⟩ := hlast (by simpa using hl)
      exact ⟨fd, by rw [hnew]; exact hfd, by rw [h.failed nofun]; exact hs⟩
    | cons b attempts =>
      rw [List.getLast?_cons_cons] at hl
      obtain ⟨fd, hfd, hr⟩ := h.last hl
      exact ⟨fd, by rw [List.head?_append, hfd]; rfl, hr⟩
  · rw [if_neg (List.cons_ne_nil _ _)]
    cases attempts with
    | nil =>
      rw [h.failed nofun, if_pos rfl]
      exact hfailed (by simpa using hl)
    | cons b attempts =>
      rw [List.getLast?_cons_cons] at hl
      rw [h.failed hl, if_neg (List.cons_ne_nil _ _)]

theorem addressLoop_left (resolved : List AddrInfo) (sockfd : Int) (s : Sockets)
    (hlen : resolved.length = s.attempts.length) (hs : s.connected = s.opened) :
    Program.Ensures semantics (addressLoop true resolved sockfd)
      (fun r t => ∃ new, Left s.attempts s sockfd new r t) s := by
  induction resolved generalizing sockfd s with
  | nil =>
    have hnil := List.length_eq_zero_iff.mp hlen.symm
    rw [hnil]
    exact .done ⟨[], rfl, hs, rfl, nofun, fun _ => rfl⟩
  | cons ai rest ih =>
    obtain ⟨attempts, inUse, opened, connected⟩ := s
    obtain rfl : connected = opened := hs
    cases attempts with
    | nil => cases hlen
    | cons a attempts =>
      have hrest : rest.length = attempts.length := Nat.succ.inj hlen
      refine .op fun fd hfd => ?_
      by_cases ha : a = .noSocket
      · subst ha
        obtain rfl : fd = none := hfd
        refine (ih (-1) ⟨attempts, inUse, connected, connected⟩ hrest rfl).mono fun r t ht => ?_
        obtain ⟨new, hnew⟩ := ht
        exact ⟨_, hnew.cons [] rfl rfl nofun fun _ => rfl⟩
      · obtain ⟨fd, rfl, -⟩ : ∃ x, fd = some x ∧ x ∉ inUse ∧ x ∉ connected := by
          simpa [semantics, ha] using hfd
        refine .op fun ok hok => ?_
        obtain rfl : ok = decide (some a = some .connected) := hok
        by_cases hc : a = .connected
        · subst hc
          refine (ih fd ⟨attempts, inUse, fd :: connected, fd :: connected⟩ hrest rfl).mono
            fun r t ht => ?_
          obtain ⟨new, hnew⟩ := ht
          exact ⟨_, hnew.cons [fd] rfl rfl (fun _ => ⟨fd, rfl, rfl⟩) (absurd rfl)⟩
        · rw [decide_eq_false (by simpa using hc)]
          refine .op fun _ _ => ?_
          -- the socket is closed again
          change Program.Ensures semantics (addressLoop true rest (-1)) _
            ⟨attempts, inUse, (fd :: connected).erase fd, connected⟩
          rw [List.erase_cons_head]
          refine (ih (-1) ⟨attempts, inUse, connected, connected⟩ hrest rfl).mono fun r t ht => ?_
          obtain ⟨new, hnew⟩ := ht
          exact ⟨_, hnew.cons [] rfl (by simp [hc]) (absurd · hc) fun _ => rfl⟩

theorem sockConnect_left (attempts : List Attempt) (inUse : List Nat) :
    Program.Ensures semantics (sockConnect true)
      (fun r t => ∃ new, Left attempts ⟨attempts, inUse, [], []⟩ 0 new r t)
      ⟨attempts, inUse, [], []⟩ := by
  refine .op fun r hr => ?_
  obtain ⟨resolved, rfl, hlen⟩ := hr
  exact addressLoop_left resolved 0 _ hlen rfl

theorem Left.selects_iff {attempts : List Attempt} {inUse new : List Nat} {r : Int} {t : Sockets}
    (h : Left attempts ⟨attempts, inUse, [], []⟩ 0 new r t) :
    Selects attempts r t ↔ .connected ∉ attempts.dropLast := by
  have hopened : t.opened = new := h.opened.trans (List.append_nil new)
  have hcount := h.count
  constructor
  · rintro ⟨-, hone, -⟩ hearly
    -- the first one stays open, and the last one, or none, is the result
    have hmem := List.mem_of_mem_dropLast hearly
    obtain ⟨fd, rfl, hfd⟩ := hone hmem
    rw [← hopened, hfd] at hcount
    have hlast : attempts.getLast? ≠ some .connected := by
      intro hl
      have hsplit := List.dropLast_append_getLast? _ hl
      have hpos := List.one_le_count_iff.mpr hearly
      rw [← hsplit, List.count_append] at hcount
      simp at hcount
      omega
    have hr := h.failed hlast
    rw [if_neg (List.ne_nil_of_mem hmem)] at hr
    omega
  · intro hearly
    have hnone := List.count_eq_zero.mpr hearly
    by_cases hl : attempts.getLast? = some .connected
    · obtain ⟨fd, hfd, rfl⟩ := h.last hl
      have hsplit := List.dropLast_append_getLast? _ hl
      have hmem : .connected ∈ attempts := hsplit ▸ List.mem_append_right _ List.mem_cons_self
      have hone : t.opened = [fd] := by
        rw [← hsplit, List.count_append, hnone] at hcount
        obtain ⟨x, rfl⟩ := List.length_eq_one_iff.mp hcount
        obtain rfl : x = fd := Option.some.inj hfd
        exact hopened
      have hfd' : fd ∈ t.connected := by simp [h.connected, hone]
      exact ⟨iff_of_true ⟨fd, hfd', rfl⟩ hmem, fun _ => ⟨fd, rfl, hone⟩, absurd hmem⟩
    · have hmem : .connected ∉ attempts := by
        intro hmem
        have hne := List.ne_nil_of_mem hmem
        rw [← List.dropLast_append_getLast hne, List.mem_append, List.mem_singleton] at hmem
        rw [List.getLast?_eq_some_getLast hne] at hl
        rcases hmem with hmem | hmem
        · exact hearly hmem
        · exact hl (congrArg some hmem.symm)
      have hnil : t.opened = [] := by
        rw [List.count_eq_zero.mpr hmem] at hcount
        rw [hopened, List.length_eq_zero_iff.mp hcount]
      refine ⟨iff_of_false ?_ hmem, fun h => absurd h hmem, fun _ => hnil⟩
      rintro ⟨fd, hfd, -⟩
      simp [h.connected, hnil] at hfd

/-- The client's `sock_connect` selects if and only if no address but the last one connects. -/
theorem sockConnect_selects_iff (attempts : List Attempt) (inUse : List Nat) (r : Int)
    (t : Sockets) (h : Program.Outcome semantics (sockConnect true) ⟨attempts, inUse, [], []⟩ r t) :
    Selects attempts r t ↔ .connected ∉ attempts.dropLast := by
  obtain ⟨new, hnew⟩ := (sockConnect_left attempts inUse).outcome h
  exact hnew.selects_iff

def loopback : AddrInfo := ⟨2, 1, 0, [127, 0, 0, 1]⟩

theorem sockConnect_selects_second : Selects [.refused, .connected] 3
    ⟨[], [0, 1, 2], [3], [3]⟩ := by
  refine (sockConnect_selects_iff [.refused, .connected] [0, 1, 2] 3 ⟨[], [0, 1, 2], [3], [3]⟩
    ?_).mpr (by decide)
  refine .op (.ok [loopback, loopback]) ⟨_, rfl, rfl⟩ ?_
  refine .op (some 3) ⟨3, rfl, by decide, by decide⟩ (.op false rfl (.op () trivial ?_))
  exact .op (some 3) ⟨3, rfl, by decide, by decide⟩ (.op true rfl .done)

/-- The first address connects, the second one refuses: the result is -1, and the first socket
stays open. -/
theorem sockConnect_not_selects : ¬ ∀ (attempts : List Attempt) (inUse : List Nat) (r : Int)
    (t : Sockets), Program.Outcome semantics (sockConnect true) ⟨attempts, inUse, [], []⟩ r t →
      Selects attempts r t := by
  intro h
  have hrun : Program.Outcome semantics (sockConnect true)
      ⟨[.connected, .refused], [0, 1, 2], [], []⟩ (-1) ⟨[], [0, 1, 2], [3], [3]⟩ := by
    refine .op (.ok [loopback, loopback]) ⟨_, rfl, rfl⟩ ?_
    refine .op (some 3) ⟨3, rfl, by decide, by decide⟩ (.op true rfl ?_)
    exact .op (some 4) ⟨4, rfl, by decide, by decide⟩ (.op false rfl (.op () trivial .done))
  obtain ⟨fd, -, hfd⟩ := (h _ _ _ _ hrun).1.mpr (by decide)
  omega

end ScpRdma.Connection.Address
