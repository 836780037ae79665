import PgEmbedSetup.Acquire.Model

set_option autoImplicit false

/-!
What a process knows of the entry while it holds the lock, and that the acquisition makes no
call but those its knowledge allows.
-/

namespace PgEmbedSetup.Acquire
open Library
open Extensions (ManifestArtifact CacheEntry CachedState ExtensionError ArchiveOrigin)

/-- Under the lock. A regular file that was there at the start is not touched before the end. -/
structure Hold where
  /-- What is at the archive's path, the process's own temporary file aside. -/
  entry : Option CacheEntry
  before : Option CacheEntry
  lookFailed : Bool
  temp : Option (Text × Bytes)
  kept : ∀ bytes, before = some (.file bytes) → entry = some (.file bytes)

def Hold.start (entry : Option CacheEntry) : Hold := ⟨entry,entry,false,none,fun _ h => h⟩

def Hold.failedLook (h : Hold) : Hold := { h with lookFailed := true }

def Hold.write (h : Hold) (name : Text) (bytes : Bytes) : Hold := { h with temp := some (name,bytes) }

def Hold.cleared (h : Hold) (hfile : ∀ bytes, h.entry ≠ some (.file bytes)) : Hold where
  entry := none
  before := h.before
  lookFailed := h.lookFailed
  temp := h.temp
  kept bytes hbefore := absurd (h.kept bytes hbefore) (hfile bytes)

inductive Stage where
  | outside
  | inside (h : Hold)
  /-- The download is in place. -/
  | placed (bytes : Bytes)
  /-- The temporary file has been dropped. -/
  | failing (before : Option CacheEntry)
  | left

structure Ghost (δ : Type) where
  pid : Nat
  artifact : ManifestArtifact δ
  stage : Stage

section Outline
variable {δ : Type} (sha : Bytes → δ)

/-- Good bytes are at the path only if the process could not look at them. -/
def Hold.Unusable (digest : δ) (h : Hold) : Prop :=
  ∀ bytes, h.entry = some (.file bytes) → sha bytes = digest → h.lookFailed = true

def Hold.Holds (digest : δ) (h : Hold) : Prop :=
  ∃ bytes, h.entry = some (.file bytes) ∧ sha bytes = digest

/-- Which calls a process may make. -/
def Stage.Allows (digest : δ) : Stage → Call δ → Prop
  | .outside, .createDirAll | .outside, .lock | .outside, .returnErr _ => True
  | .inside h, .symlinkMetadata | .inside h, .ofFile => h.temp = none
  | .inside h, .removeDirAll | .inside h, .removeFile =>
    h.temp = none ∧ ∀ bytes, h.entry ≠ some (.file bytes)
  | .inside h, .newTemp => h.temp = none
  | .inside h, .request => h.temp.isSome = true ∧ h.Unusable sha digest
  | .inside h, .receive | .inside h, .dropTemp => h.temp.isSome = true
  | .inside h, .persist =>
    h.Unusable sha digest ∧ ∃ name bytes, h.temp = some (name,bytes) ∧ sha bytes = digest
  | .inside h, .returnOk _ => h.temp = none ∧ h.Holds sha digest
  | .inside h, .returnErr _ => h.temp = none
  | .placed bytes, .returnOk _ => sha bytes = digest
  | .failing _, .returnErr _ => True
  | _, _ => False

/-- What an answer tells the process. -/
def Stage.Next : Stage → (c : Call δ) → c.Reply → Stage → Prop
  | .outside, .createDirAll, _, s => s = .outside
  | .outside, .lock, ok, s => if ok then ∃ entry, s = .inside (.start entry) else s = .outside
  | .inside h, .symlinkMetadata, .failed, s => s = .inside h.failedLook
  | .inside h, .symlinkMetadata, .notFound, s => s = .inside h ∧ h.entry = none
  | .inside h, .symlinkMetadata, .found kind, s => s = .inside h ∧ h.entry.map kindOf = some kind
  | .inside h, .ofFile, none, s => s = .inside h.failedLook
  | .inside h, .ofFile, some actual, s =>
    s = .inside h ∧ ∃ bytes, h.entry = some (.file bytes) ∧ actual = sha bytes
  | .inside h, .removeDirAll, ok, s | .inside h, .removeFile, ok, s =>
    if ok then ∃ hfile, s = .inside (h.cleared hfile) else s = .inside h
  | .inside h, .newTemp, none, s => s = .inside h
  | .inside h, .newTemp, some name, s => s = .inside (h.write name [])
  | .inside h, .request, _, s => s = .inside h
  | .inside h, .receive, .byte b, s =>
    ∃ name bytes, h.temp = some (name,bytes) ∧ s = .inside (h.write name (bytes ++ [b]))
  | .inside h, .receive, .eof, s | .inside h, .receive, .failed, s => s = .inside h
  | .inside h, .persist, ok, s =>
    if ok then ∃ name bytes, h.temp = some (name,bytes) ∧ s = .placed bytes else s = .inside h
  | .inside h, .dropTemp, _, s => s = .failing h.before
  | _, .returnOk _, _, s | _, .returnErr _, _, s => s = .left
  | _, _, _, _ => False

/-- Ghosts stay with their process and its artifact. -/
def outline : Outline (Op δ) Reply (Ghost δ) where
  ok g op := op.pid = g.pid ∧ op.artifact = g.artifact ∧ g.stage.Allows sha g.artifact.sha256 op.call
  next g op r g' := ∃ stage, g.stage.Next sha op.call r stage ∧ g' = { g with stage }
  final _ := True

variable {sha} {pid : Nat} {artifact : ManifestArtifact δ} {α : Type}

/-- A program that begins with a call of the process. -/
theorem outline_call {c : Call δ} {f : c.Reply → Code δ α} {post : α → Ghost δ → Prop} {s : Stage}
    (hok : s.Allows sha artifact.sha256 c)
    (hnext : ∀ (r : c.Reply) s', s.Next sha c r s' → (outline sha).wp (f r) post ⟨pid,artifact,s'⟩) :
    (outline sha).wp (call pid artifact c >>= f) post ⟨pid,artifact,s⟩ := by
  refine wp_perform_bind.mpr ⟨⟨rfl,rfl,hok⟩,?_⟩
  rintro r g' ⟨s',hs',rfl⟩
  exact hnext r s' hs'

theorem outline_last {c : Call δ} {post : c.Reply → Ghost δ → Prop} {s : Stage}
    (hok : s.Allows sha artifact.sha256 c)
    (hnext : ∀ (r : c.Reply) s', s.Next sha c r s' → post r ⟨pid,artifact,s'⟩) :
    (outline sha).wp (call pid artifact c) post ⟨pid,artifact,s⟩ := by
  refine wp_perform.mpr ⟨⟨rfl,rfl,hok⟩,?_⟩
  rintro r g' ⟨s',hs',rfl⟩
  exact hnext r s' hs'

/-! ### The acquisition keeps to it -/

theorem unusable_failedLook (digest : δ) (h : Hold) : h.failedLook.Unusable sha digest :=
  fun _ _ _ => rfl

theorem unusable_of_kind {digest : δ} {h : Hold} {kind : EntryKind}
    (hkind : h.entry.map kindOf = some kind) (hfile : kind ≠ .file) : h.Unusable sha digest := by
  intro bytes hentry
  rw [hentry] at hkind
  exact absurd (Option.some.inj hkind).symm hfile

variable (sha) in
/-- The verdict on the entry, and no temporary file yet. -/
def Judged (pid : Nat) (artifact : ManifestArtifact δ) (state : CachedState) (g : Ghost δ) : Prop :=
  ∃ h : Hold, g = ⟨pid,artifact,.inside h⟩ ∧ h.temp = none ∧
    (state = .valid → h.Holds sha artifact.sha256) ∧
    (state ≠ .valid → h.Unusable sha artifact.sha256)

variable (sha) in
/-- Nothing stands in the download's way, or the process is about to give up. -/
def Cleared (pid : Nat) (artifact : ManifestArtifact δ) (r : Except (ExtensionError δ) Unit)
    (g : Ghost δ) : Prop :=
  ∃ h : Hold, g = ⟨pid,artifact,.inside h⟩ ∧ h.temp = none ∧
    (r = .ok () → h.Unusable sha artifact.sha256)

theorem cleared_removed {h : Hold} {ok : Bool} {s : Stage} (htemp : h.temp = none)
    (hnext : if ok then ∃ hfile, s = .inside (h.cleared hfile) else s = .inside h) :
    Cleared sha pid artifact (removed artifact ok) ⟨pid,artifact,s⟩ := by
  cases ok with
  | false =>
    obtain rfl := hnext
    exact ⟨h,rfl,htemp,fun hr => (by cases hr)⟩
  | true =>
    obtain ⟨hfile,rfl⟩ := hnext
    exact ⟨h.cleared hfile,rfl,htemp,fun _ bytes hb => (by cases hb)⟩

theorem clearUnusableEntry_outline {h : Hold} (htemp : h.temp = none)
    (hunusable : h.Unusable sha artifact.sha256) :
    (outline sha).wp (clearUnusableEntry pid artifact) (Cleared sha pid artifact)
      ⟨pid,artifact,.inside h⟩ := by
  refine outline_call htemp (fun found s' hnext => ?_)
  rcases found with kind | _ | _
  case found =>
    obtain ⟨rfl,hkind⟩ := hnext
    have hnofile : kind ≠ .file → ∀ bytes, h.entry ≠ some (.file bytes) := by
      intro hne bytes hentry
      rw [hentry] at hkind
      exact hne (Option.some.inj hkind).symm
    cases kind with
    | file => exact wp_pure.mpr ⟨h,rfl,htemp,fun _ => hunusable⟩
    | dir => exact outline_call ⟨htemp,hnofile (by simp)⟩ (fun ok s' hnext => cleared_removed htemp hnext)
    | other => exact outline_call ⟨htemp,hnofile (by simp)⟩ (fun ok s' hnext => cleared_removed htemp hnext)
  case notFound =>
    obtain ⟨rfl,-⟩ := hnext
    exact wp_pure.mpr ⟨h,rfl,htemp,fun _ => hunusable⟩
  case failed =>
    obtain rfl := hnext
    exact wp_pure.mpr ⟨h.failedLook,rfl,htemp,fun _ => unusable_failedLook _ h⟩

/-- With the temporary file open and the bytes it holds. -/
def Writing (pid : Nat) (artifact : ManifestArtifact δ) (h : Hold) (written : Bytes)
    (g : Ghost δ) : Prop :=
  ∃ name, g = ⟨pid,artifact,.inside (h.write name written)⟩

theorem copyBody_outline {h : Hold} (left : Nat) {name : Text} {written : Bytes} :
    (outline sha).wp (copyBody pid artifact left written)
      (fun r g => ∃ bytes, Writing pid artifact h bytes g ∧ ∀ all, r = some all → all = bytes)
      ⟨pid,artifact,.inside (h.write name written)⟩ := by
  induction left generalizing name written with
  | zero => exact wp_pure.mpr ⟨written,⟨name,rfl⟩,fun all hall => (Option.some.inj hall).symm⟩
  | succ left ih =>
    refine outline_call rfl (fun received s' hnext => ?_)
    cases received with
    | byte b =>
      obtain ⟨name',bytes,htemp,rfl⟩ := hnext
      obtain ⟨rfl,rfl⟩ := Prod.mk.inj (Option.some.inj htemp)
      exact ih
    | eof =>
      obtain rfl := hnext
      exact wp_pure.mpr ⟨written,⟨name,rfl⟩,fun all hall => (Option.some.inj hall).symm⟩
    | failed =>
      obtain rfl := hnext
      exact wp_pure.mpr ⟨written,⟨name,rfl⟩,fun all hall => (by cases hall)⟩

theorem httpGet_outline {h : Hold} (hunusable : h.Unusable sha artifact.sha256) {name : Text} :
    (outline sha).wp (httpGet pid artifact)
      (fun r g => ∃ bytes, Writing pid artifact h bytes g ∧ ∀ all, r = some all → all = bytes)
      ⟨pid,artifact,.inside (h.write name [])⟩ := by
  refine outline_call ⟨rfl,hunusable⟩ (fun ok s' hnext => ?_)
  obtain rfl := hnext
  cases ok with
  | true => exact copyBody_outline (artifact.size+1)
  | false => exact wp_pure.mpr ⟨[],⟨name,rfl⟩,fun all hall => (by cases hall)⟩

variable (sha) in
/-- Before `acquire` returns with the lock: only what has been verified is called a success. -/
def Leaving {β : Type} (pid : Nat) (artifact : ManifestArtifact δ) (r : Except (ExtensionError δ) β)
    (g : Ghost δ) : Prop :=
  ∃ s, g = ⟨pid,artifact,s⟩ ∧ (∀ b origin, r = .ok b → s.Allows sha artifact.sha256 (.returnOk origin)) ∧
    ∀ e e', r = .error e → s.Allows sha artifact.sha256 (.returnErr e')

theorem leaving_error {β : Type} {s : Stage} {e : ExtensionError δ}
    (hs : ∀ e', s.Allows sha artifact.sha256 (.returnErr e')) :
    Leaving sha pid artifact (.error e : Except (ExtensionError δ) β)
      ⟨pid,artifact,s⟩ :=
  ⟨s,rfl,fun b origin hr => (by cases hr),fun _ e' _ => hs e'⟩

theorem abandon_outline {h : Hold} {written : Bytes} {g : Ghost δ} (e : ExtensionError δ)
    (hg : Writing pid artifact h written g) :
    (outline sha).wp (abandon pid artifact e) (Leaving sha pid artifact) g := by
  obtain ⟨name,rfl⟩ := hg
  refine outline_call rfl (fun ok s' hnext => ?_)
  obtain rfl := hnext
  exact wp_pure.mpr (leaving_error (fun _ => trivial))

variable [DecidableEq δ]

theorem cachedState_outline {h : Hold} (htemp : h.temp = none) :
    (outline sha).wp (cachedState pid artifact) (Judged sha pid artifact)
      ⟨pid,artifact,.inside h⟩ := by
  refine outline_call htemp (fun found s' hnext => ?_)
  rcases found with (_ | _ | _) | _ | _
  case found.file =>
    obtain ⟨rfl,-⟩ := hnext
    refine outline_call htemp (fun actual s' hnext => ?_)
    cases actual with
    | none =>
      obtain rfl := hnext
      exact ⟨h.failedLook,rfl,htemp,fun hv => (by cases hv),fun _ => unusable_failedLook _ h⟩
    | some actual =>
      obtain ⟨rfl,bytes,hentry,rfl⟩ := hnext
      refine wp_pure.mpr ⟨h,rfl,htemp,fun hvalid => ?_,fun hvalid b hb hsha => ?_⟩
      · split at hvalid
        · rename_i hsha
          exact ⟨bytes,hentry,hsha⟩
        · cases hvalid
      · rw [hentry,Option.some.injEq,CacheEntry.file.injEq] at hb
        rw [hb,if_pos hsha] at hvalid
        exact absurd rfl hvalid
  case notFound =>
    obtain ⟨rfl,hnone⟩ := hnext
    exact ⟨h,rfl,htemp,fun hv => (by cases hv),fun _ b hb => by rw [hnone] at hb; cases hb⟩
  case failed =>
    obtain rfl := hnext
    exact ⟨h.failedLook,rfl,htemp,fun hv => (by cases hv),fun _ => unusable_failedLook _ h⟩
  all_goals
    obtain ⟨rfl,hkind⟩ := hnext
    exact ⟨h,rfl,htemp,fun hv => (by cases hv),fun _ => unusable_of_kind hkind (by simp)⟩

theorem download_outline {h : Hold} (htemp : h.temp = none)
    (hunusable : h.Unusable sha artifact.sha256) :
    (outline sha).wp (download sha pid artifact) (Leaving sha pid artifact)
      ⟨pid,artifact,.inside h⟩ := by
  refine outline_call htemp (fun temp s' hnext => ?_)
  cases temp with
  | none =>
    obtain rfl := hnext
    exact wp_pure.mpr (leaving_error (fun _ => htemp))
  | some name =>
    obtain rfl := hnext
    refine wp_bind.mpr (wp_mono (httpGet_outline hunusable) ?_)
    rintro body g ⟨written,hwriting,hall⟩
    cases body with
    | none => exact abandon_outline _ hwriting
    | some all =>
      obtain rfl := hall all rfl
      dsimp only
      split
      · exact abandon_outline _ hwriting
      · rename_i hmatches
        push Not at hmatches
        obtain ⟨name',rfl⟩ := hwriting
        refine outline_call ⟨hunusable,name',all,rfl,hmatches.2⟩ (fun ok s' hnext => ?_)
        cases ok with
        | true =>
          obtain ⟨_,bytes,hbytes,rfl⟩ := hnext
          obtain ⟨-,rfl⟩ := Prod.mk.inj (Option.some.inj hbytes)
          exact wp_pure.mpr ⟨_,rfl,fun _ _ _ => hmatches.2,fun _ _ hr => (by cases hr)⟩
        | false =>
          obtain rfl := hnext
          exact abandon_outline _ ⟨name',rfl⟩

theorem clearAndDownload_outline {h : Hold} (htemp : h.temp = none)
    (hunusable : h.Unusable sha artifact.sha256) :
    (outline sha).wp (clearAndDownload sha pid artifact) (Leaving sha pid artifact)
      ⟨pid,artifact,.inside h⟩ := by
  refine wp_bind.mpr (wp_mono (clearUnusableEntry_outline htemp hunusable) ?_)
  rintro r g ⟨k,rfl,hktemp,hk⟩
  cases r with
  | error e => exact wp_pure.mpr (leaving_error (fun _ => hktemp))
  | ok u => exact download_outline hktemp (hk rfl)

theorem acquireLocked_outline {h : Hold} (htemp : h.temp = none) :
    (outline sha).wp (acquireLocked sha pid artifact) (Leaving sha pid artifact)
      ⟨pid,artifact,.inside h⟩ := by
  refine wp_bind.mpr (wp_mono (cachedState_outline htemp) ?_)
  rintro state g ⟨k,rfl,hktemp,hvalid,hunusable⟩
  cases state with
  | valid =>
    exact wp_pure.mpr ⟨_,rfl,fun _ _ _ => ⟨hktemp,hvalid rfl⟩,fun _ _ hr => (by cases hr)⟩
  | missing | corrupt | unreadable =>
    refine wp_bind.mpr (wp_mono (clearAndDownload_outline hktemp (hunusable (by simp))) ?_)
    rintro r g ⟨s,rfl,hok,herr⟩
    cases r with
    | error e =>
      exact wp_pure.mpr ⟨s,rfl,fun b origin hr => (by cases hr),fun _ e' _ => herr e e' rfl⟩
    | ok u =>
      exact wp_pure.mpr ⟨s,rfl,fun _ origin _ => hok u origin rfl,fun _ _ hr => (by cases hr)⟩

theorem acquisition_safe : (outline sha).Safe (acquisition sha pid artifact)
    ⟨pid,artifact,.outside⟩ := by
  have hacquire : (outline sha).wp (acquire sha pid artifact) (Leaving sha pid artifact)
      ⟨pid,artifact,.outside⟩ := by
    refine outline_call trivial (fun ok s' hnext => ?_)
    obtain rfl := hnext
    cases ok with
    | false => exact wp_pure.mpr (leaving_error (fun _ => trivial))
    | true =>
      refine outline_call trivial (fun ok s' hnext => ?_)
      cases ok with
      | false =>
        obtain rfl := hnext
        exact wp_pure.mpr (leaving_error (fun _ => trivial))
      | true =>
        obtain ⟨entry,rfl⟩ := hnext
        exact acquireLocked_outline rfl
  refine wp_bind.mpr (wp_mono hacquire ?_)
  rintro r g ⟨s,rfl,hok,herr⟩
  cases r with
  | ok origin => exact outline_last (hok origin origin rfl) (fun _ _ _ => trivial)
  | error e => exact outline_last (herr e e rfl) (fun _ _ _ => trivial)

end Outline

end PgEmbedSetup.Acquire
