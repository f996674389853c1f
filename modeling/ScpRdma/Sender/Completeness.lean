import ScpRdma.Sender.Discipline
import Mathlib.Order.Interval.Set.Basic

/-!
# What a reported success says

A `Disk` fixes the answers of the system calls on the source. A run of the sender that
returns 0 has announced what `Emits` says, and whether that is the whole source depends on
the reads: the chunk loop runs a number of times fixed by `st_size` and treats a read that
fails as the end of the file, and the directory loop passes over what it cannot examine.
-/
namespace ScpRdma.Sender
open Foundations

/-- The source as the system calls show it. -/
structure Disk where
  stat : Path → Option Stat
  lstat : Path → Option Stat
  openFile : Path → Bool → Option Handle
  pread : Handle → (len off : Nat) → Option Bytes
  readlink : Path → Option Bytes
  opendir : Path → Option Handle
  readdir : Handle → Nat → Dirent

/-- The calls on the source answer as the disk does; everything else may happen. -/
def World.disk (D : Disk) : World
  | .stat path, r => r = D.stat path
  | .lstat path, r => r = D.lstat path
  | .openFile path direct, r => r = D.openFile path direct
  | .pread fd _ len off, r => r = D.pread fd len off
  | .readlink path size, r => r = (D.readlink path).map (·.take size)
  | .opendir path, r => r = D.opendir path
  | .readdir dir pos, r => r = D.readdir dir pos
  | _, _ => True

/-- The file range a packet carries, as its bytes say it. -/
def chunkRange (bytes : Bytes) : Option (Nat × Nat) :=
  if field bytes 5 1 = [CmdType.fileData.byte] then
    some (leNat (field bytes 24 8), leNat (field bytes 20 4))
  else none

/-- The positions of the file that the packets carry. -/
def covered (packets : List Announced) : Set Nat :=
  {x | ∃ a ∈ packets, ∃ off len, chunkRange a.bytes = some (off, len) ∧ off ≤ x ∧ x < off + len}

theorem covered_cons (a : Announced) (as : List Announced) :
    covered (a :: as) = covered [a] ∪ covered as := by
  ext x
  simp [covered]

theorem chunkRange_fileMeta (name : Bytes) (size mode : Nat) (type : FileType) (chunks : Nat) :
    chunkRange (Packet.fileMeta name size mode type chunks).encode = none := by
  rw [chunkRange, Packet.field_cmd]
  rfl

theorem chunkRange_fileData {i off : Nat} {payload : Bytes} (hoff : off < 2 ^ 64)
    (hlen : payload.length ≤ scpChunkSize) :
    chunkRange (Packet.fileData i off payload).encode = some (off, payload.length) := by
  have hlen' : payload.length < 256 ^ 4 := by
    rw [scpChunkSize_eq] at hlen
    omega
  rw [chunkRange, Packet.field_cmd, Packet.field_offset, Packet.field_chunkSize,
    leNat_leBytes_of_lt (by omega), leNat_leBytes_of_lt hlen']
  rfl

theorem covered_fileMeta {x : Slot} {name : Bytes} {size mode : Nat} {type : FileType}
    {chunks : Nat} (as : List Announced) :
    covered (⟨x, (Packet.fileMeta name size mode type chunks).encode⟩ :: as) = covered as := by
  rw [covered_cons]
  simp [covered, chunkRange_fileMeta]

theorem covered_fileData {x : Slot} {i off : Nat} {payload : Bytes} (as : List Announced)
    (hoff : off < 2 ^ 64) (hlen : payload.length ≤ scpChunkSize) :
    covered (⟨x, (Packet.fileData i off payload).encode⟩ :: as) =
      Set.Ico off (off + payload.length) ∪ covered as := by
  rw [covered_cons]
  congr 1
  ext y
  simp [covered, chunkRange_fileData hoff hlen]

/-! ## One file -/

/-- What the successive reads of a file return, up to the one that ends the loop. -/
def Disk.reads (D : Disk) (fd : Handle) (direct : Bool) (size : Nat) :
    (remaining offset : Nat) → List (Option Nat)
  | 0, _ => []
  | remaining + 1, offset =>
    let toRead := chunkToRead size offset
    match D.pread fd (askSize direct toRead) offset with
    | none => [none]
    | some data =>
      if data.take toRead = [] then [some data.length]
      else some data.length :: D.reads fd direct size remaining
        (offset + (data.take toRead).length)

/-- Every read brings something, and together they bring the file, each counted for at most
one chunk. -/
def ReadsSuffice (size : Nat) (reads : List (Option Nat)) : Prop :=
  (∀ r ∈ reads, ∃ n, r = some (n + 1)) ∧
    size ≤ (reads.map fun r => min (r.getD 0) scpChunkSize).sum

/-- The chunks of a file cover it from `off` to where the reads lead. -/
theorem chunks_cover {D : Disk} {fd : Handle} {direct : Bool} {size remaining i off : Nat}
    {x : Slot} {out : List Parcel}
    (h : EmitsChunks (.disk D) fd direct size remaining i off x out) (hoff : off ≤ size)
    (hsize : size < 2 ^ 63) (hrem : remaining = 0 ∨ off + (remaining - 1) * scpChunkSize < size) :
    ∃ stop, off ≤ stop ∧ stop ≤ size ∧ covered (announce out) = Set.Ico off stop ∧
      (stop = size ↔ ReadsSuffice (size - off) (D.reads fd direct size remaining off)) := by
  induction h with
  | @finish i off slot =>
    refine ⟨off, le_rfl, hoff, by simp [covered], fun h => ⟨by simp [Disk.reads], by omega⟩,
      fun h => ?_⟩
    have hsum := h.2
    simp only [Disk.reads, List.map_nil, List.sum_nil] at hsum
    omega
  | @stop remaining i off slot r hr hnil =>
    refine ⟨off, le_rfl, hoff, by simp [covered], ?_⟩
    have hlt : off < size := by
      rcases hrem with h0 | h
      · omega
      · omega
    have hpos : chunkToRead size off ≠ 0 := by
      unfold chunkToRead
      split
      · omega
      · simp [scpChunkSize_eq]
    have hr : r = D.pread fd (askSize direct (chunkToRead size off)) off := hr
    refine iff_of_false (by omega) fun hs => ?_
    cases r with
    | none => simpa [Disk.reads, ← hr] using hs.1 none (by simp [Disk.reads, ← hr])
    | some data =>
      obtain rfl : data = [] := by simpa [hpos] using hnil
      obtain ⟨n, hn⟩ := hs.1 (some 0) (by simp [Disk.reads, ← hr])
      simp at hn
  | @chunk remaining i off slot out data payload hr hpay hne hrest ih =>
    obtain ⟨hto, hend⟩ := chunkToRead_le size off hoff
    have hr : some data = D.pread fd (askSize direct (chunkToRead size off)) off := hr
    have hlen : payload.length = min (chunkToRead size off) data.length := by
      rw [hpay, List.length_take]
    have hlenpos : 0 < payload.length := List.length_pos_of_ne_nil hne
    have hrem' : remaining = 0 ∨
        off + payload.length + (remaining - 1) * scpChunkSize < size := by
      rcases Nat.eq_zero_or_pos remaining with h0 | h1
      · exact .inl h0
      · right
        have hmul : remaining * scpChunkSize = (remaining - 1) * scpChunkSize + scpChunkSize := by
          obtain ⟨k, rfl⟩ : ∃ k, remaining = k + 1 := ⟨remaining - 1, by omega⟩
          rw [Nat.add_sub_cancel, Nat.add_mul, Nat.one_mul]
        have := hrem.resolve_left (by omega)
        rw [Nat.add_sub_cancel] at this
        omega
    obtain ⟨stop, hle, hstop, hcov, hiff⟩ := ih (by omega) hrem'
    refine ⟨stop, by omega, hstop, ?_, hiff.trans ?_⟩
    · rw [announce_cons, covered_fileData _ (by omega) (by omega), hcov]
      exact Set.Ico_union_Ico_eq_Ico (by omega) hle
    · have hdata : data ≠ [] := by
        rintro rfl
        simp [hpay] at hne
      have hdatapos := List.length_pos_of_ne_nil hdata
      have hreads : D.reads fd direct size (remaining + 1) off =
          some data.length :: D.reads fd direct size remaining (off + payload.length) := by
        rw [Disk.reads, ← hr, hpay]
        exact if_neg (hpay ▸ hne)
      have hfirst : ∃ n, some data.length = some (n + 1) :=
        ⟨data.length - 1, by rw [Nat.sub_add_cancel hdatapos]⟩
      rw [hreads]
      simp only [ReadsSuffice, List.forall_mem_cons, hfirst, true_and, List.map_cons,
        List.sum_cons, Option.getD_some]
      by_cases hshort : payload.length = min data.length scpChunkSize
      · refine and_congr_right fun _ => ?_
        omega
      · -- the read brought the rest of the file, so no iteration is left
        have hlast : off + payload.length = size := by
          unfold chunkToRead at hlen
          split at hlen <;> omega
        have hnone : remaining = 0 := hrem'.resolve_right (by omega)
        simp only [hnone, Disk.reads, List.not_mem_nil, false_imp_iff, implies_true, true_and,
          List.map_nil, List.sum_nil]
        omega

theorem totalChunks_enough (size : Nat) :
    totalChunks size = 0 ∨ 0 + (totalChunks size - 1) * scpChunkSize < size := by
  by_cases hwide : 2 ^ 63 < size + scpChunkSize
  · -- the sum wraps, but the chunks that a `uint32_t` counts end long before
    have hlt := totalChunks_lt size
    rw [scpChunkSize_eq] at *
    omega
  have hle : totalChunks size ≤ (size + scpChunkSize - 1) / scpChunkSize := by
    rw [totalChunks_eq (not_lt.mp hwide)]
    exact Nat.mod_le _ _
  rcases Nat.eq_zero_or_pos (totalChunks size) with h0 | h1
  · exact .inl h0
  · right
    have hmul : totalChunks size * scpChunkSize ≤ size + scpChunkSize - 1 :=
      (Nat.mul_le_mul_right _ hle).trans (Nat.div_mul_le_self _ _)
    have : totalChunks size * scpChunkSize =
        (totalChunks size - 1) * scpChunkSize + scpChunkSize := by
      obtain ⟨k, hk⟩ : ∃ k, totalChunks size = k + 1 := ⟨totalChunks size - 1, by omega⟩
      rw [hk, Nat.add_sub_cancel, Nat.add_mul, Nat.one_mul]
    have hpos : 0 < scpChunkSize := by decide
    omega

/-- The descriptor that `scp_send_file` reads from, and whether with `O_DIRECT`. -/
def Disk.source (D : Disk) (path : Path) : Option (Handle × Bool) :=
  match D.openFile path true with
  | some fd => some (fd, true)
  | none => (D.openFile path false).map fun fd => (fd, false)

/-- The reads of the file at `path` suffice for its `st_size`. -/
def Disk.ReadsWhole (D : Disk) (path : Path) : Prop :=
  ∀ st fd direct, D.stat path = some st → D.source path = some (fd, direct) →
    ReadsSuffice st.size (D.reads fd direct st.size (totalChunks st.size) 0)

theorem source_of_world {D : Disk} {path : Path} {fd : Handle} {direct : Bool}
    (hopen : (World.disk D) (.openFile path direct) (some fd))
    (hplain : direct = false → (World.disk D) (.openFile path true) none) :
    D.source path = some (fd, direct) := by
  have hopen : some fd = D.openFile path direct := hopen
  unfold Disk.source
  cases direct with
  | true => rw [← hopen]
  | false =>
    have hplain : none = D.openFile path true := hplain rfl
    rw [← hplain, ← hopen]
    rfl

/-- The chunks that follow the meta packet cover the file exactly when the reads suffice. -/
theorem emitsFile_covers {D : Disk} {l r : Path} {out : List Parcel} (st : Stat)
    (h : EmitsFile (.disk D) l r out) (hst : D.stat l = some st) :
    covered (announce out) = Set.Iio st.size ↔ D.ReadsWhole l := by
  obtain ⟨st', direct, fd, hstat, hsize, hopen, hplain, hchunks⟩ := h
  obtain rfl : st' = st := Option.some.inj (Eq.trans hstat hst)
  have hsource := source_of_world hopen hplain
  obtain ⟨stop, -, hle, hcov, hiff⟩ :=
    chunks_cover hchunks (Nat.zero_le _) hsize (totalChunks_enough _)
  have hIio : Set.Ico 0 stop = Set.Iio st'.size ↔ stop = st'.size := by
    refine ⟨fun h => le_antisymm hle (not_lt.mp fun hlt => ?_), fun h => by rw [h]; ext; simp⟩
    have : stop ∈ Set.Ico 0 stop := h ▸ hlt
    exact lt_irrefl _ this.2
  rw [announce_cons, covered_fileMeta, hcov, hIio, hiff, Nat.sub_zero]
  refine ⟨fun hs st fd' direct' hst' hsource' => ?_, fun hs => hs _ _ _ hst hsource⟩
  rw [hst] at hst'
  rw [hsource] at hsource'
  cases hst'
  cases hsource'
  exact hs

/-! ## A whole tree -/

/-- The packets of an object of which nothing is missing: every directory is read to its end,
every entry is examined and sent under its own path, and the chunks of every file cover it. -/
inductive Whole (D : Disk) (cfg : Config) : Task → List Parcel → Prop where
  | link {l r st out} : st.kind = .symlink → EmitsLink (.disk D) l r st out →
      Whole D cfg (.object l r st) out
  | file {l r st out} : st.kind = .regular ∨ st.kind = .other → EmitsFile (.disk D) l r out →
      (∀ st', D.stat l = some st' → covered (announce out) = Set.Iio st'.size) →
      Whole D cfg (.object l r st) out
  | directory {l r st out} : st.kind = .directory → Whole D cfg (.dir l r) out →
      Whole D cfg (.object l r st) out
  | dir {l r dir out} : D.opendir l = some dir → Whole D cfg (.entries dir 0 l r) out →
      Whole D cfg (.dir l r) ((0, .dirEnter r) :: out ++ [(0, .dirLeave)])
  | finish {dir pos l r} : D.readdir dir pos = .finish → Whole D cfg (.entries dir pos l r) []
  | dots {dir pos l r name out} : D.readdir dir pos = .entry name → name = dot ∨ name = dotDot →
      Whole D cfg (.entries dir (pos + 1) l r) out → Whole D cfg (.entries dir pos l r) out
  | entry {dir pos l r name st out rest} : D.readdir dir pos = .entry name →
      ¬(name = dot ∨ name = dotDot) → subPath l name = childPath l name →
      Examines (.disk D) cfg (childPath l name) (some st) →
      Whole D cfg (.object (childPath l name) (subPath r name) st) out →
      Whole D cfg (.entries dir (pos + 1) l r) rest →
      Whole D cfg (.entries dir pos l r) (out ++ rest)

/-- Every directory can be read to its end, every entry below can be examined through a path
that fits its buffer, and the reads of every file suffice. -/
inductive Disk.Readable (D : Disk) (cfg : Config) : Task → Prop where
  | link {l r st} : st.kind = .symlink → D.Readable cfg (.object l r st)
  | file {l r st} : st.kind = .regular ∨ st.kind = .other → D.ReadsWhole l →
      D.Readable cfg (.object l r st)
  | directory {l r st} : st.kind = .directory → D.Readable cfg (.dir l r) →
      D.Readable cfg (.object l r st)
  | dir {l r dir} : D.opendir l = some dir → D.Readable cfg (.entries dir 0 l r) →
      D.Readable cfg (.dir l r)
  | finish {dir pos l r} : D.readdir dir pos = .finish → D.Readable cfg (.entries dir pos l r)
  | dots {dir pos l r name} : D.readdir dir pos = .entry name → name = dot ∨ name = dotDot →
      D.Readable cfg (.entries dir (pos + 1) l r) → D.Readable cfg (.entries dir pos l r)
  | entry {dir pos l r name st} : D.readdir dir pos = .entry name →
      ¬(name = dot ∨ name = dotDot) → (childPath l name).length < scpMaxPathLen →
      Examines (.disk D) cfg (childPath l name) (some st) →
      D.Readable cfg (.object (childPath l name) (subPath r name) st) →
      D.Readable cfg (.entries dir (pos + 1) l r) → D.Readable cfg (.entries dir pos l r)

theorem emitsFile_stat {D : Disk} {l r : Path} {out : List Parcel}
    (h : EmitsFile (.disk D) l r out) : ∃ st, D.stat l = some st := by
  obtain ⟨st, -, -, hstat, -⟩ := h
  exact ⟨st, Eq.symm hstat⟩

theorem Whole.readable {D : Disk} {cfg : Config} {task : Task} {out : List Parcel}
    (h : Whole D cfg task out) : D.Readable cfg task := by
  induction h with
  | link hk _ => exact .link hk
  | file hk hf hcov =>
    obtain ⟨st, hst⟩ := emitsFile_stat hf
    exact .file hk ((emitsFile_covers st hf hst).mp (hcov st hst))
  | directory hk _ ih => exact .directory hk ih
  | dir hopen _ ih => exact .dir hopen ih
  | finish hread => exact .finish hread
  | dots hread hdots _ ih => exact .dots hread hdots ih
  | entry hread hdots hpath hst _ _ ih ih' =>
    exact .entry hread hdots (subPath_eq_iff.mp hpath) hst ih ih'

theorem examines_unique {D : Disk} {cfg : Config} {path : Path} {st st' : Option Stat}
    (h : Examines (.disk D) cfg path st) (h' : Examines (.disk D) cfg path st') : st = st' := by
  unfold Examines at h h'
  split at h
  · rw [if_pos ‹_›] at h'
    exact Eq.trans h (Eq.symm h')
  · rw [if_neg ‹_›] at h'
    exact Eq.trans h (Eq.symm h')

theorem Emits.whole {D : Disk} {cfg : Config} {task : Task} {out : List Parcel}
    (h : Emits (.disk D) cfg task out) (hrec : cfg.recursive = true)
    (hgood : D.Readable cfg task) : Whole D cfg task out := by
  induction h with
  | link hk hl => exact .link hk hl
  | file hk hf =>
    refine .file hk hf fun st hst => (emitsFile_covers st hf hst).mpr ?_
    cases hgood with
    | file _ hreads => exact hreads
    | link hk' => simp [hk'] at hk
    | directory hk' => simp [hk'] at hk
  | directory hk _ ih =>
    cases hgood with
    | directory _ hdir => exact .directory hk (ih hdir)
    | link hk' => simp [hk'] at hk
    | file hk' => simp [hk] at hk'
  | dir dir hopen _ ih =>
    obtain hopen : some dir = D.opendir _ := hopen
    cases hgood with
    | dir hopen' hentries =>
      rw [hopen'] at hopen
      cases hopen
      exact .dir hopen' (ih hentries)
  | @finish dir pos l r resp hread hend =>
    obtain hread : resp = D.readdir dir pos := hread
    cases hgood with
    | finish hread' => exact .finish hread'
    | dots hread' | entry hread' => exact absurd (hread.trans hread') (hend _)
  | @dots dir pos l r name out hread hdots _ ih =>
    obtain hread : .entry name = D.readdir dir pos := hread
    cases hgood with
    | finish hread' => simp [hread'] at hread
    | dots hread' _ hrest => exact .dots hread.symm hdots (ih hrest)
    | entry hread' hdots' =>
      rw [hread'] at hread
      cases hread
      exact absurd hdots hdots'
  | @skip dir pos l r name out st hread hdots hst hskip _ ih =>
    obtain hread : .entry name = D.readdir dir pos := hread
    cases hgood with
    | finish hread' => simp [hread'] at hread
    | dots hread' hdots' =>
      rw [hread'] at hread
      cases hread
      exact absurd hdots' hdots
    | entry hread' _ hpath hst' hobj =>
      rw [hread'] at hread
      cases hread
      rw [subPath_eq_iff.mpr hpath] at hst
      obtain rfl := examines_unique hst hst'
      have := (hskip _ rfl).2
      simp [hrec] at this
  | @entry dir pos l r name out rest st hread hdots hst _ _ _ ih ih' =>
    obtain hread : .entry name = D.readdir dir pos := hread
    cases hgood with
    | finish hread' => simp [hread'] at hread
    | dots hread' hdots' =>
      rw [hread'] at hread
      cases hread
      exact absurd hdots' hdots
    | entry hread' _ hpath hst' hobj hrest =>
      rw [hread'] at hread
      cases hread
      have hwhole := subPath_eq_iff.mpr hpath
      rw [hwhole] at hst ih
      obtain rfl := Option.some.inj (examines_unique hst hst')
      exact .entry hread' hdots hwhole hst (ih hobj) (ih' hrest)

/-! ## Runs -/

/-- A state between two packets. -/
abbrev Resting := {s : State // Rest s}

/-- The runs of a part of the sender on a disk. -/
abbrev diskRun (D : Disk) (cfg : Config) (p : Sender Int) (s : State) :
    System (Sender Int × State) :=
  Program.system (bodies cfg) (semantics (.disk D)) p s

/-- What was announced since `s`. -/
def State.sentSince (s t : State) : List Announced := t.ledger.sent.drop s.ledger.sent.length

theorem sentSince_eq {s t : State} {out : List Parcel}
    (h : t.ledger.sent = s.ledger.sent ++ announce out) : s.sentSince t = announce out := by
  rw [State.sentSince, h, List.drop_left]

theorem scpSendFile_covers (D : Disk) (cfg : Config) (l r : Path) (s : Resting) :
    (diskRun D cfg (scpSendFile l r) s).Invariant fun c => c.1 = .done 0 →
      ∀ st, D.stat l = some st →
        ((covered (s.val.sentSince c.2) = Set.Iio st.size ∧ c.2.ledger.unacked = []) ↔
          D.ReadsWhole l) := by
  have hver : Verified (bodies cfg) (semantics (.disk D)) duties (scpSendFile l r) _ s.val :=
    fun _ => scpSendFile_spec s.property
  refine hver.runs.mono ?_
  rintro ⟨_, t⟩ ht rfl st hst
  obtain ⟨hup, out, hout, hsent⟩ := ht.post rfl
  rw [sentSince_eq hsent, and_iff_left hup.clear]
  exact emitsFile_covers st hout hst

theorem scpSendDirectory_whole (D : Disk) (noLink : Bool) (l r : Path) (s : Resting) :
    (diskRun D ⟨true, noLink⟩ (scpSendDirectory l r) s).Invariant fun c => c.1 = .done 0 →
      ((∃ out, Whole D ⟨true, noLink⟩ (.dir l r) out ∧ s.val.sentSince c.2 = announce out ∧
          c.2.ledger.unacked = []) ↔
        D.Readable ⟨true, noLink⟩ (.dir l r)) := by
  have hver : Verified (bodies ⟨true, noLink⟩) (semantics (.disk D)) duties
      (scpSendDirectory l r) _ s.val :=
    fun _ => directory_spec (c := .sendDirectory l r) s.property
  refine hver.runs.mono ?_
  rintro ⟨_, t⟩ ht rfl
  obtain ⟨hup, out, hout, hsent⟩ := ht.post rfl
  refine ⟨fun ⟨_, hw, _⟩ => hw.readable, fun hgood => ?_⟩
  exact ⟨out, hout.whole rfl hgood, sentSince_eq hsent, hup.clear⟩

/-- A run of `scp_send_file` that returns 0 has sent the file, acknowledged, exactly when its
reads suffice. A recursive run of `scp_send_directory` that returns 0 has sent every entry in
full exactly when no `readdir` failed, each entry can be examined, its path not cut, and the
reads of each file suffice. -/
theorem reported_success (D : Disk) (noLink : Bool) (localPath remotePath : Path) (s : Resting) :
    (diskRun D ⟨true, noLink⟩ (scpSendFile localPath remotePath) s).Invariant (fun c =>
      c.1 = .done 0 → ∀ st, D.stat localPath = some st →
        ((covered (s.val.sentSince c.2) = Set.Iio st.size ∧ c.2.ledger.unacked = []) ↔
          D.ReadsWhole localPath)) ∧
    (diskRun D ⟨true, noLink⟩ (scpSendDirectory localPath remotePath) s).Invariant (fun c =>
      c.1 = .done 0 →
        ((∃ out, Whole D ⟨true, noLink⟩ (.dir localPath remotePath) out ∧
            s.val.sentSince c.2 = announce out ∧ c.2.ledger.unacked = []) ↔
          D.Readable ⟨true, noLink⟩ (.dir localPath remotePath))) :=
  ⟨scpSendFile_covers D _ localPath remotePath s,
    scpSendDirectory_whole D noLink localPath remotePath s⟩

/-- A disk with one file of ten bytes, whose reads fail. -/
def failingDisk : Disk where
  stat _ := some ⟨.regular, 10, 0o644⟩
  lstat _ := some ⟨.regular, 10, 0o644⟩
  openFile path _ := some path
  pread _ _ _ := none
  readlink _ := none
  opendir _ := none
  readdir _ _ := .finish

/-- Verbs that succeed, with one completion for each wait, and ACKs in order. -/
def obliging : (o : Op) → State → Option (Response o)
  | .get, s => some s.ctx
  | .currentSlot, s => some s.ctx.currentSlot
  | .update _, _ | .store _ _, _ | .close _, _ | .closedir _, _ | .progress _ _, _
  | .transDestroy, _ => some ()
  | .stat path, _ => some (failingDisk.stat path)
  | .lstat path, _ => some (failingDisk.lstat path)
  | .openFile path direct, _ => some (failingDisk.openFile path direct)
  | .pread fd _ len off, _ => some (failingDisk.pread fd len off)
  | .readlink path size, _ => some ((failingDisk.readlink path).map (·.take size))
  | .opendir path, _ => some (failingDisk.opendir path)
  | .readdir dir pos, _ => some (failingDisk.readdir dir pos)
  | .sockEstablished, _ | .registerMr, _ | .exchange, _ | .modifyQp _, _ | .postRecv _ _, _
  | .postWrite _ _ _, _ | .postSend _, _ => some true
  | .queryQp, s => some (some s.qp)
  | .waitCompletion .waitForRdmaWriteCompletion maxWc _, _ =>
    some (some ([⟨.rdmaWrite, true, 0⟩].take maxWc))
  | .waitCompletion _ maxWc _, _ => some (some ([⟨.recv, true, 0⟩].take maxWc))
  | .readCdc _, s => some (Cdc.dataReady (s.ledger.unacked.headD 0))
  | .undefined, _ => none

theorem obliging_allowed (o : Op) (s : State) (r : Response o) (h : obliging o s = some r) :
    (semantics (.disk failingDisk)).allow o s r := by
  cases o
  case undefined => cases h
  case waitCompletion site maxWc _ =>
    cases site <;> cases h <;> exact ⟨List.length_take_le _ _, trivial⟩
  case stat | lstat => cases h; exact ⟨show 10 < 2 ^ 63 by decide, rfl⟩
  all_goals cases h; exact ⟨by trivial, by trivial⟩

/-- The state in which `scp_send_file` ends on the failing disk. -/
def afterFailingReads : Sender Int × State :=
  Program.exec (bodies ⟨true, false⟩) (semantics (.disk failingDisk)) obliging 100
    (scpSendFile [97] [97], initState)

theorem afterFailingReads_result : afterFailingReads.1 = .done 0 :=
  Program.eq_done_of_result? (by decide +kernel)

/-- A success may be reported for a file that was not sent: the reads of a file of ten bytes
fail, and `scp_send_file` returns 0 after the meta packet. -/
theorem reported_success_incomplete :
    ¬∀ (D : Disk) (noLink : Bool) (localPath remotePath : Path) (s : Resting),
      (diskRun D ⟨true, noLink⟩ (scpSendFile localPath remotePath) s).Invariant (fun c =>
        c.1 = .done 0 → ∀ st, D.stat localPath = some st →
          covered (s.val.sentSince c.2) = Set.Iio st.size ∧ c.2.ledger.unacked = []) ∧
      (diskRun D ⟨true, noLink⟩ (scpSendDirectory localPath remotePath) s).Invariant (fun c =>
        c.1 = .done 0 → ∃ out, Whole D ⟨true, noLink⟩ (.dir localPath remotePath) out ∧
          s.val.sentSince c.2 = announce out ∧ c.2.ledger.unacked = []) := by
  intro hall
  have hfile := (hall failingDisk false [97] [97] ⟨initState, .init⟩).1
  have hreach : (diskRun failingDisk ⟨true, false⟩ (scpSendFile [97] [97]) initState).Reachable
      afterFailingReads :=
    ⟨_, rfl, Program.exec_runs obliging_allowed 100 (scpSendFile [97] [97], initState)⟩
  have hcov := (scpSendFile_covers failingDisk ⟨true, false⟩ [97] [97] ⟨initState, .init⟩ _ hreach
    afterFailingReads_result _ rfl).mp (hfile _ hreach afterFailingReads_result _ rfl)
  have hchunks : totalChunks 10 = 1 := by decide +kernel
  have hread : none ∈ failingDisk.reads [97] true 10 (totalChunks 10) 0 := by
    rw [hchunks]
    exact List.mem_singleton.mpr rfl
  obtain ⟨n, hn⟩ := (hcov _ [97] true rfl rfl).1 none hread
  cases hn

end ScpRdma.Sender
