import PgEmbedSetup.Acquire.Verified

set_option autoImplicit false

/-! A process that is alone does what the pipeline's `acquire` does. -/

namespace PgEmbedSetup.Acquire
open Library
open Extensions (ManifestArtifact CacheEntry Cache CachedState ExtensionError ArchiveOrigin Inst
  Surroundings cacheCall cacheTry setEntry_self setEntry_of_ne)

variable {δ : Type}

theorem cacheCall_either {α : Type} (os : Extensions.Os) (error : ExtensionError δ)
    (work : Cache δ → α × Cache δ) (w : Extensions.World δ) : ∃ w₁ : Extensions.World δ,
      cacheCall os error work w = .failed error w₁ ∧ w₁.cache = w.cache ∨
      cacheCall os error work w = .done (work w.cache).1 w₁ ∧ w₁.cache = (work w.cache).2 := by
  cases hfault : os.fault w.disk.clock with
  | some fault =>
    refine ⟨⟨⟨w.disk.tree,w.disk.clock+1⟩,w.cache⟩,.inl ⟨?_,rfl⟩⟩
    simp only [cacheCall,hfault]
  | none =>
    refine ⟨⟨⟨w.disk.tree,w.disk.clock+1⟩,(work w.cache).2⟩,.inr ⟨?_,rfl⟩⟩
    simp only [cacheCall,hfault]

theorem cacheTry_either {α : Type} (os : Extensions.Os) (f : Cache δ → α)
    (w : Extensions.World δ) : ∃ w₁ : Extensions.World δ, w₁.cache = w.cache ∧
      (cacheTry os f w = .done none w₁ ∨ cacheTry os f w = .done (some (f w.cache)) w₁) := by
  refine ⟨⟨⟨w.disk.tree,w.disk.clock+1⟩,w.cache⟩,rfl,?_⟩
  cases hfault : os.fault w.disk.clock with
  | some fault =>
    left
    simp only [cacheTry,hfault]
  | none =>
    right
    simp only [cacheTry,hfault]

variable [DecidableEq δ]

theorem setEntry_setEntry (c : Cache δ) (digest : δ) (file : Text) (x y : Option CacheEntry) :
    (c.setEntry digest file x).setEntry digest file y = c.setEntry digest file y := by
  simp [Cache.setEntry]

theorem setEntry_same {c : Cache δ} {digest : δ} {file : Text} {x : Option CacheEntry}
    (h : c.entry digest file = x) : c.setEntry digest file x = c := by
  simp [Cache.setEntry,← h]

variable {sha : Bytes → δ} {s : Surroundings δ} {pid : Nat} {artifact : ManifestArtifact δ}
  {v v₁ : World δ} {w w₁ w' : Extensions.World δ} {α β ρ : Type}

/-- The process lives in the cache of the pipeline's world. -/
structure Shares (v : World δ) (pid : Nat) (w : Extensions.World δ) : Prop where
  cache : v.cache = w.cache
  lives : v.dead pid = false

omit [DecidableEq δ] in
theorem looked_dead {entry : Option CacheEntry} {r : Metadata}
    (h : looked v pid entry r = some v₁) : v₁.dead = v.dead := by
  revert h
  fun_cases looked v pid entry r <;> intro h
  all_goals
    cases h
    try rfl

theorem act_dead {c : Call δ} {r : c.Reply} (h : act sha v pid artifact c r = some v₁) :
    v₁.dead = v.dead := by
  revert h
  fun_cases act sha v pid artifact c r <;> intro h
  case case6 => exact looked_dead h
  case case33 removed _ _ _ =>
    cases h
    cases removed <;> rfl
  all_goals
    cases h
    try rfl

/-- The program comes to what the pipeline comes to, in the same cache. -/
def Mimics (sha : Bytes → δ) (pid : Nat) (v : World δ)
    (p : Code δ (Except (ExtensionError δ) α)) :
    Outcome (Extensions.World δ) (ExtensionError δ) α → Prop
  | .done a w => ∃ v', Plays (answer sha) v p (.ok a) v' ∧ Shares v' pid w
  | .failed e w => ∃ v', Plays (answer sha) v p (.error e) v' ∧ Shares v' pid w
  | .hangs _ => True

theorem answer_lives {c : Call δ} {r : c.Reply} (hlives : v.dead pid = false)
    (hact : act sha v pid artifact c r = some v₁) :
    answer sha v ⟨pid,artifact,c⟩ r = some v₁ := by
  simpa [answer,hlives] using hact

theorem plays_call (c : Call δ) (r : c.Reply) {f : c.Reply → Code δ ρ} {a : ρ} {v' : World δ}
    (hlives : v.dead pid = false) (hact : act sha v pid artifact c r = some v₁)
    (h : Plays (answer sha) v₁ (f r) a v') :
    Plays (answer sha) v (call pid artifact c >>= f) a v' :=
  plays_perform_bind (answer_lives hlives hact) h

theorem mimics_call (c : Call δ) (r : c.Reply) {f : c.Reply → Code δ (Except (ExtensionError δ) α)}
    {o : Outcome (Extensions.World δ) (ExtensionError δ) α}
    (hlives : v.dead pid = false) (hact : act sha v pid artifact c r = some v₁)
    (h : Mimics sha pid v₁ (f r) o) : Mimics sha pid v (call pid artifact c >>= f) o := by
  cases o with
  | done a w =>
    obtain ⟨v',hplays,hshares⟩ := h
    exact ⟨v',plays_call c r hlives hact hplays,hshares⟩
  | failed e w =>
    obtain ⟨v',hplays,hshares⟩ := h
    exact ⟨v',plays_call c r hlives hact hplays,hshares⟩
  | hangs w => trivial

theorem mimics_plays {p : Code δ ρ} {a : ρ} {f : ρ → Code δ (Except (ExtensionError δ) α)}
    {o : Outcome (Extensions.World δ) (ExtensionError δ) α} (hp : Plays (answer sha) v p a v₁)
    (h : Mimics sha pid v₁ (f a) o) : Mimics sha pid v (p >>= f) o := by
  cases o with
  | done b w =>
    obtain ⟨v',hplays,hshares⟩ := h
    exact ⟨v',plays_bind hp hplays,hshares⟩
  | failed e w =>
    obtain ⟨v',hplays,hshares⟩ := h
    exact ⟨v',plays_bind hp hplays,hshares⟩
  | hangs w => trivial

theorem mimics_bind {p : Code δ (Except (ExtensionError δ) α)} {x : Inst δ α}
    {q : Except (ExtensionError δ) α → Code δ (Except (ExtensionError δ) β)} {f : α → Inst δ β}
    (hp : Mimics sha pid v p (x w)) (herror : ∀ e, q (.error e) = pure (.error e))
    (hok : ∀ a w₁ v₁, x w = .done a w₁ → Shares v₁ pid w₁ →
      Mimics sha pid v₁ (q (.ok a)) (f a w₁)) : Mimics sha pid v (p >>= q) ((x >>= f) w) := by
  cases h : x w with
  | done a w₁ =>
    rw [h] at hp
    obtain ⟨v₁,hplays,hshares⟩ := hp
    rw [bind_of_done h]
    exact mimics_plays hplays (hok a w₁ v₁ h hshares)
  | failed e w₁ =>
    rw [h] at hp
    obtain ⟨v₁,hplays,hshares⟩ := hp
    rw [bind_of_failed h]
    refine mimics_plays hplays ?_
    rw [herror]
    exact ⟨v₁,.done v₁ _,hshares⟩
  | hangs w₁ =>
    rw [bind_of_hangs h]
    trivial

/-- A call of the pipeline fails and changes nothing, or does its work. -/
theorem mimics_cacheCall {os : Extensions.Os} {error : ExtensionError δ}
    {work : Cache δ → α × Cache δ} {f : α → Inst δ β} {p : Code δ (Except (ExtensionError δ) β)}
    (hfails : ∀ w₁ : Extensions.World δ, w₁.cache = w.cache →
      Mimics sha pid v p (.failed error w₁))
    (hworks : ∀ w₁ : Extensions.World δ, w₁.cache = (work w.cache).2 →
      Mimics sha pid v p (f (work w.cache).1 w₁)) :
    Mimics sha pid v p ((cacheCall os error work >>= f) w) := by
  obtain ⟨w₁,⟨h,hcache⟩ | ⟨h,hcache⟩⟩ := cacheCall_either os error work w
  · rw [bind_of_failed h]
    exact hfails w₁ hcache
  · rw [bind_of_done h]
    exact hworks w₁ hcache

theorem mimics_lastCall {os : Extensions.Os} {error : ExtensionError δ}
    {work : Cache δ → α × Cache δ} {p : Code δ (Except (ExtensionError δ) α)}
    (hfails : ∀ w₁ : Extensions.World δ, w₁.cache = w.cache →
      Mimics sha pid v p (.failed error w₁))
    (hworks : ∀ w₁ : Extensions.World δ, w₁.cache = (work w.cache).2 →
      Mimics sha pid v p (.done (work w.cache).1 w₁)) :
    Mimics sha pid v p (cacheCall os error work w) := by
  obtain ⟨w₁,⟨h,hcache⟩ | ⟨h,hcache⟩⟩ := cacheCall_either os error work w
  · rw [h]
    exact hfails w₁ hcache
  · rw [h]
    exact hworks w₁ hcache

theorem mimics_failed {e : ExtensionError δ} (hshares : Shares v pid w) :
    Mimics sha pid v (pure (.error e) : Code δ (Except (ExtensionError δ) α)) (.failed e w) :=
  ⟨v,.done v _,hshares⟩

theorem mimics_done {a : α} (hshares : Shares v pid w) :
    Mimics sha pid v (pure (.ok a) : Code δ (Except (ExtensionError δ) α)) (.done a w) :=
  ⟨v,.done v _,hshares⟩

theorem Shares.step {c : Call δ} {r : c.Reply} (h : Shares v pid w)
    (hact : act sha v pid artifact c r = some v₁) (hcache : v₁.cache = w₁.cache) :
    Shares v₁ pid w₁ :=
  ⟨hcache,by rw [act_dead hact]; exact h.lives⟩

/-! ### Function by function -/

theorem cachedState_plays (h : Shares v pid w) : ∃ state w₁ v₁,
    Extensions.cachedState s artifact w = .done state w₁ ∧ w₁.cache = w.cache ∧
      Plays (answer s.sha) v (cachedState pid artifact) state v₁ ∧ Shares v₁ pid w₁ := by
  obtain ⟨w₁,hcache₁,hlook | hlook⟩ :=
    cacheTry_either s.os (fun c => c.entry artifact.sha256 artifact.file) w
  · refine ⟨.unreadable,w₁,v.lookFailed pid,?_,hcache₁,?_,h.cache.trans hcache₁.symm,h.lives⟩
    · rw [Extensions.cachedState,bind_of_done hlook]
      rfl
    · exact plays_call .symlinkMetadata .failed h.lives rfl (.done _ _)
  · have hshares₁ : Shares v pid w₁ := ⟨h.cache.trans hcache₁.symm,h.lives⟩
    rw [Extensions.cachedState,bind_of_done hlook]
    rcases hentry : w.cache.entry artifact.sha256 artifact.file with _ | bytes | _ | _
    case none =>
      refine ⟨.missing,w₁,v,rfl,hcache₁,plays_call .symlinkMetadata .notFound h.lives ?_ (.done _ _),hshares₁⟩
      simp [act,looked,h.cache,hentry]
    case some.dir =>
      refine ⟨.unreadable,w₁,v,rfl,hcache₁,
        plays_call .symlinkMetadata (.found .dir) h.lives ?_ (.done _ _),hshares₁⟩
      simp [act,looked,h.cache,hentry,kindOf]
    case some.other =>
      refine ⟨.unreadable,w₁,v,rfl,hcache₁,
        plays_call .symlinkMetadata (.found .other) h.lives ?_ (.done _ _),hshares₁⟩
      simp [act,looked,h.cache,hentry,kindOf]
    case some.file =>
      have hfound : act s.sha v pid artifact .symlinkMetadata (.found .file) = some v := by
        simp [act,looked,h.cache,hentry,kindOf]
      obtain ⟨w₂,hcache₂,hread | hread⟩ := cacheTry_either s.os (fun _ => s.sha bytes) w₁
      · refine ⟨.unreadable,w₂,v.lookFailed pid,?_,hcache₂.trans hcache₁,?_,
          hshares₁.cache.trans hcache₂.symm,h.lives⟩
        · exact (bind_of_done hread).trans rfl
        · exact plays_call .symlinkMetadata (.found .file) h.lives hfound
            (plays_call .ofFile none h.lives rfl (.done _ _))
      · refine ⟨_,w₂,v,(bind_of_done hread).trans rfl,hcache₂.trans hcache₁,?_,
          hshares₁.cache.trans hcache₂.symm,h.lives⟩
        refine plays_call .symlinkMetadata (.found .file) h.lives hfound
          (plays_call .ofFile (some (s.sha bytes)) h.lives ?_ (.done _ _))
        simp [act,h.cache,hentry]

/-- Either way of removing what is no regular file. -/
theorem remove_mimics (c : Call δ) (good bad : c.Reply)
    {f : c.Reply → Code δ (Except (ExtensionError δ) Unit)} (h : Shares v pid w)
    (hbad : act s.sha v pid artifact c bad = some v)
    (hgood : act s.sha v pid artifact c good =
      some (v.setEntry artifact.sha256 artifact.file none))
    (herror : f bad = pure (.error (.cannotRemove artifact.sha256 artifact.file)))
    (hok : f good = pure (.ok ())) :
    Mimics s.sha pid v (call pid artifact c >>= f)
      (cacheCall s.os (.cannotRemove artifact.sha256 artifact.file)
        (fun c => ((),c.setEntry artifact.sha256 artifact.file none)) w) := by
  refine mimics_lastCall (fun w₁ hcache₁ => ?_) (fun w₁ hcache₁ => ?_)
  · refine mimics_call c bad h.lives hbad ?_
    rw [herror]
    exact mimics_failed ⟨h.cache.trans hcache₁.symm,h.lives⟩
  · refine mimics_call c good h.lives hgood ?_
    rw [hok]
    refine mimics_done ⟨?_,h.lives⟩
    rw [hcache₁,World.setEntry,h.cache]

theorem clearUnusableEntry_mimics (h : Shares v pid w) :
    Mimics s.sha pid v (clearUnusableEntry pid artifact)
      (Extensions.clearUnusableEntry s artifact w) := by
  refine mimics_cacheCall (fun w₁ hcache₁ => ?_) (fun w₁ hcache₁ => ?_)
  · exact mimics_call .symlinkMetadata .failed h.lives rfl
      (mimics_failed ⟨h.cache.trans hcache₁.symm,h.lives⟩)
  · have hshares₁ : Shares v pid w₁ := ⟨h.cache.trans hcache₁.symm,h.lives⟩
    dsimp only
    rcases hentry : w.cache.entry artifact.sha256 artifact.file with _ | bytes | _ | _
    case none =>
      refine mimics_call .symlinkMetadata .notFound h.lives ?_ (mimics_done hshares₁)
      simp [act,looked,h.cache,hentry]
    case some.file =>
      refine mimics_call .symlinkMetadata (.found .file) h.lives ?_ (mimics_done hshares₁)
      simp [act,looked,h.cache,hentry,kindOf]
    case some.dir =>
      have hremoved : act s.sha v pid artifact .removeDirAll true =
          some (v.setEntry artifact.sha256 artifact.file none) := by
        simp [act,h.cache,hentry]
      refine mimics_call .symlinkMetadata (.found .dir) h.lives ?_
        (remove_mimics .removeDirAll true false hshares₁ rfl hremoved rfl rfl)
      simp [act,looked,h.cache,hentry,kindOf]
    case some.other =>
      have hremoved : act s.sha v pid artifact .removeFile true =
          some (v.setEntry artifact.sha256 artifact.file none) := by
        simp [act,h.cache,hentry]
      refine mimics_call .symlinkMetadata (.found .other) h.lives ?_
        (remove_mimics .removeFile true false hshares₁ rfl hremoved rfl rfl)
      simp [act,looked,h.cache,hentry,kindOf]

/-- What has come so far is in the temporary file, and the rest of the body follows. -/
theorem copyBody_plays {name : Text} (body : Bytes) : ∀ (left : Nat) {v : World δ} {written : Bytes},
    v.dead pid = false → v.temps pid = some (artifact.sha256,name) →
    v.cache.entry artifact.sha256 name = some (.file written) →
      Plays (answer sha) v (copyBody pid artifact left written) (some (written ++ body.take left))
        (v.setEntry artifact.sha256 name (some (.file (written ++ body.take left)))) := by
  induction body with
  | nil =>
    intro left v written hlives htemp hentry
    have hsame : v.setEntry artifact.sha256 name (some (.file written)) = v := by
      rw [World.setEntry,setEntry_same hentry]
    rw [List.take_nil,List.append_nil,hsame]
    cases left with
    | zero => exact .done _ _
    | succ left => exact plays_call .receive .eof hlives rfl (.done _ _)
  | cons b body ih =>
    intro left v written hlives htemp hentry
    cases left with
    | zero =>
      have hsame : v.setEntry artifact.sha256 name (some (.file written)) = v := by
        rw [World.setEntry,setEntry_same hentry]
      rw [List.take_zero,List.append_nil,hsame]
      exact .done _ _
    | succ left =>
      have hbyte : act sha v pid artifact .receive (.byte b) =
          some (v.setEntry artifact.sha256 name (some (.file (written ++ [b])))) := by
        simp [act,htemp,hentry]
      have hmore : (v.setEntry artifact.sha256 name (some (.file (written ++ [b])))).cache.entry
          artifact.sha256 name = some (.file (written ++ [b])) := setEntry_self _ _ _ _
      have hrest := ih left (v := v.setEntry artifact.sha256 name (some (.file (written ++ [b]))))
        hlives htemp hmore
      rw [World.setEntry,World.setEntry,setEntry_setEntry,List.append_assoc] at hrest
      exact plays_call .receive (.byte b) hlives hbyte hrest

theorem httpGet_plays {name : Text} (hlives : v.dead pid = false)
    (htemp : v.temps pid = some (artifact.sha256,name))
    (hentry : v.cache.entry artifact.sha256 name = some (.file [])) : ∃ body w₁ bytes,
      Extensions.httpGet s artifact.url artifact.size w = .done body w₁ ∧ w₁.cache = w.cache ∧
      (∀ all, body = some all → all = bytes) ∧
      Plays (answer s.sha) v (httpGet pid artifact) body
        (v.setEntry artifact.sha256 name (some (.file bytes))) := by
  cases hbody : (if Extensions.isPermittedUrl s.host artifact.url then
      s.download w.disk.clock artifact.url else none) with
  | none =>
    refine ⟨none,⟨⟨w.disk.tree,w.disk.clock+1⟩,w.cache⟩,[],?_,rfl,fun all hall => (by cases hall),?_⟩
    · rw [Extensions.httpGet,hbody]
      rfl
    · rw [World.setEntry,setEntry_same hentry]
      exact plays_call .request false hlives rfl (.done _ _)
  | some body =>
    refine ⟨some (body.take (artifact.size+1)),⟨⟨w.disk.tree,w.disk.clock+1⟩,w.cache⟩,
      body.take (artifact.size+1),?_,rfl,fun all hall => (Option.some.inj hall).symm,?_⟩
    · rw [Extensions.httpGet,hbody]
      rfl
    · exact plays_call .request true hlives rfl (copyBody_plays body _ hlives htemp hentry)

/-- The process has its temporary file open, apart from the pipeline's cache. -/
structure Opened (v : World δ) (pid : Nat) (w : Extensions.World δ) (digest : δ) (name : Text)
    (bytes : Bytes) : Prop where
  lives : v.dead pid = false
  temp : v.temps pid = some (digest,name)
  cache : v.cache = w.cache.setEntry digest name (some (.file bytes))
  free : w.cache.entry digest name = none

theorem Opened.closed {name : Text} {bytes : Bytes}
    (h : Opened v pid w artifact.sha256 name bytes) :
    v.cache.setEntry artifact.sha256 name none = w.cache := by
  rw [h.cache,setEntry_setEntry,setEntry_same h.free]

theorem abandon_mimics {name : Text} {bytes : Bytes} {e : ExtensionError δ}
    (h : Opened v pid w artifact.sha256 name bytes) :
    Mimics sha pid v (abandon pid artifact e) (.failed e w) := by
  have hdropped : act sha v pid artifact .dropTemp true =
      some ((v.setEntry artifact.sha256 name none).setTemp pid none) := by
    simp [act,h.temp]
  exact mimics_call .dropTemp true h.lives hdropped (mimics_failed ⟨h.closed,h.lives⟩)

theorem persist_mimics {name : Text} {bytes : Bytes}
    (h : Opened v pid w artifact.sha256 name bytes) (hname : name ≠ artifact.file)
    (hdir : w.cache.entry artifact.sha256 artifact.file ≠ some .dir) :
    Mimics s.sha pid v
      (call pid artifact .persist >>= fun ok => if ok then pure (.ok ())
        else abandon pid artifact (.cannotMove artifact.sha256 artifact.file))
      (cacheCall s.os (.cannotMove artifact.sha256 artifact.file)
        (fun c => ((),c.setEntry artifact.sha256 artifact.file (some (.file bytes)))) w) := by
  refine mimics_lastCall (fun w₁ hcache₁ => ?_) (fun w₁ hcache₁ => ?_)
  · have hopened : Opened v pid w₁ artifact.sha256 name bytes :=
      ⟨h.lives,h.temp,by rw [hcache₁]; exact h.cache,by rw [hcache₁]; exact h.free⟩
    exact mimics_call .persist false h.lives rfl (abandon_mimics hopened)
  · have hwritten : v.cache.entry artifact.sha256 name = some (.file bytes) := by
      rw [h.cache,setEntry_self]
    have hplace : v.cache.entry artifact.sha256 artifact.file ≠ some .dir := by
      rw [h.cache,setEntry_of_ne _ _ (fun hsame => hname hsame.2.symm)]
      exact hdir
    have hmoved : act s.sha v pid artifact .persist true =
        some ((((v.setEntry artifact.sha256 name none).setEntry artifact.sha256 artifact.file
          (some (.file bytes))).setTemp pid none).note pid
            (fun seen => { seen with placed := true })) := by
      simp only [act,h.temp,hwritten]
    refine mimics_call .persist true h.lives hmoved (mimics_done ⟨?_,h.lives⟩)
    rw [hcache₁,← h.closed]
    rfl

theorem download_mimics (h : Shares v pid w) {name : Text} (hname : name ≠ artifact.file)
    (hfree : w.cache.entry artifact.sha256 name = none)
    (hdir : w.cache.entry artifact.sha256 artifact.file ≠ some .dir) :
    Mimics s.sha pid v (download s.sha pid artifact) (Extensions.download s artifact w) := by
  refine mimics_cacheCall (fun w₁ hcache₁ => ?_) (fun w₁ hcache₁ => ?_)
  · exact mimics_call .newTemp none h.lives rfl
      (mimics_failed ⟨h.cache.trans hcache₁.symm,h.lives⟩)
  · have hnew : act s.sha v pid artifact .newTemp (some name) =
        some ((v.setEntry artifact.sha256 name (some (.file []))).setTemp pid
          (some (artifact.sha256,name))) := by
      simp [act,h.cache,hfree]
    refine mimics_call .newTemp (some name) h.lives hnew ?_
    have htemps : ((v.setEntry artifact.sha256 name (some (.file []))).setTemp pid
        (some (artifact.sha256,name))).temps pid = some (artifact.sha256,name) :=
      Function.update_self _ _ _
    obtain ⟨body,w₂,bytes,hget,hcache₂,hall,hplays⟩ := httpGet_plays (s := s) (w := w₁)
      (v := (v.setEntry artifact.sha256 name (some (.file []))).setTemp pid
        (some (artifact.sha256,name))) h.lives htemps (setEntry_self _ _ _ _)
    have hopened : Opened (((v.setEntry artifact.sha256 name (some (.file []))).setTemp pid
        (some (artifact.sha256,name))).setEntry artifact.sha256 name (some (.file bytes))) pid w₂
        artifact.sha256 name bytes := by
      refine ⟨h.lives,htemps,?_,?_⟩
      · rw [hcache₂,hcache₁,← h.cache]
        exact setEntry_setEntry _ _ _ _ _
      · rw [hcache₂,hcache₁]
        exact hfree
    rw [bind_of_done hget]
    refine mimics_plays hplays ?_
    cases body with
    | none => exact abandon_mimics hopened
    | some all =>
      obtain rfl := hall all rfl
      dsimp only
      split
      · exact abandon_mimics hopened
      · refine persist_mimics hopened hname ?_
        rw [hcache₂,hcache₁]
        exact hdir

theorem not_dir_of_cleared (h : Extensions.clearUnusableEntry s artifact w = .done () w₁) :
    w₁.cache.entry artifact.sha256 artifact.file ≠ some .dir := by
  obtain ⟨found,w₂,hlook,h⟩ := bind_done.mp h
  obtain ⟨hfound,hcache₂,-⟩ := Extensions.cacheCall_done hlook
  dsimp only at hfound hcache₂
  rcases found with _ | bytes | _ | _
  case some.dir | some.other =>
    obtain ⟨-,hcache₁,-⟩ := Extensions.cacheCall_done h
    rw [hcache₁,setEntry_self]
    simp
  all_goals
    cases h
    rw [hcache₂,← hfound]
    simp

theorem acquire_mimics (h : Shares v pid w) (hholder : v.holder artifact.sha256 = none)
    {name : Text} (hname : name ≠ artifact.file)
    (hfree : w.cache.entry artifact.sha256 name = none) :
    Mimics s.sha pid v (acquire s.sha pid artifact) (Extensions.acquire s artifact w) := by
  refine mimics_cacheCall (fun w₁ hcache₁ => ?_) (fun w₁ hcache₁ => ?_)
  · exact mimics_call .createDirAll false h.lives rfl
      (mimics_failed ⟨h.cache.trans hcache₁.symm,h.lives⟩)
  refine mimics_call .createDirAll true h.lives rfl
    (mimics_cacheCall (fun w₂ hcache₂ => ?_) (fun w₂ hcache₂ => ?_))
  · refine mimics_call .lock false h.lives rfl (mimics_failed ⟨?_,h.lives⟩)
    rw [hcache₂,hcache₁,← h.cache]
    rfl
  have hlocked : act s.sha (v.createDir artifact.sha256) pid artifact .lock true =
      some ((v.createDir artifact.sha256).acquireLock pid artifact.sha256 artifact.file) :=
    if_pos hholder
  refine mimics_call .lock true h.lives hlocked ?_
  have hshares₂ : Shares ((v.createDir artifact.sha256).acquireLock pid artifact.sha256
      artifact.file) pid w₂ := by
    refine ⟨?_,h.lives⟩
    rw [hcache₂,hcache₁,← h.cache]
    rfl
  obtain ⟨state,w₃,v₃,hstate,hcache₃,hplays,hshares₃⟩ := cachedState_plays (s := s) hshares₂
  have hentry₃ : w₃.cache.entry = w.cache.entry := by
    rw [hcache₃,hcache₂,hcache₁]
  rw [bind_of_done hstate]
  refine mimics_plays hplays ?_
  cases state with
  | valid => exact mimics_done hshares₃
  | missing | corrupt | unreadable =>
    have hdownload : Mimics s.sha pid v₃ (clearAndDownload s.sha pid artifact)
        ((Extensions.clearUnusableEntry s artifact >>= fun _ => Extensions.download s artifact) w₃) := by
      refine mimics_bind (clearUnusableEntry_mimics hshares₃) (fun _ => rfl) ?_
      rintro ⟨⟩ w₄ v₄ hclear hshares₄
      have hothers := (Extensions.clearUnusableEntry_done hclear).2
      refine download_mimics hshares₄ hname ?_ (not_dir_of_cleared hclear)
      rw [hothers _ _ (fun hsame => hname hsame.2),hentry₃]
      exact hfree
    dsimp only
    rw [← bind_bind]
    exact mimics_bind hdownload (fun _ => rfl) fun _ w₄ v₄ _ hshares₄ => mimics_done hshares₄

/-! ### As a run of the pool -/

def returned : Except (ExtensionError δ) ArchiveOrigin → Call δ
  | .ok origin => .returnOk origin
  | .error e => .returnErr e

theorem run_alone {cache : Cache δ} {r : Except (ExtensionError δ) ArchiveOrigin} {v' : World δ}
    (hplays : Plays (answer sha) (World.initial cache) (acquire sha 0 artifact) r v')
    (hlives : v'.dead 0 = false) : ∃ as t,
      (acquisitions sha cache [artifact]).Run (begin sha cache [artifact]) as t ∧
      Waits t ⟨0,artifact,returned r⟩ ∧ t.world = v' := by
  have hthread : [acquisition sha 0 artifact][0]? = some (acquire sha 0 artifact >>= fun
      | .ok origin => call 0 artifact (.returnOk origin)
      | .error e => call 0 artifact (.returnErr e)) := rfl
  have hC : ∀ (s : State δ) (i : Nat) (op : Op δ) (r : Reply op), Uncut s (.advance i op r) :=
    fun _ _ _ _ => trivial
  obtain ⟨as,hrun⟩ := Machine.run_plays (m := machine sha) hC (fun _ => rfl) hplays hthread
    (System.Run.nil (T := (acquisitions sha cache [artifact])) (begin sha cache [artifact]))
  refine ⟨as,_,hrun,⟨⟨0,?_⟩,hlives⟩,rfl⟩
  cases r <;> rfl

/-- Alone in the cache, a process may do whatever the pipeline's `acquire` does, and it ends with
the same answer and the same cache. Some name must be free for the temporary file. -/
theorem acquire_alone (s : Surroundings δ) (w : Extensions.World δ) (artifact : ManifestArtifact δ)
    {name : Text} (hname : name ≠ artifact.file)
    (hfree : w.cache.entry artifact.sha256 name = none) :
    (∀ origin w', Extensions.acquire s artifact w = .done origin w' → ∃ as t,
      (acquisitions s.sha w.cache [artifact]).Run (begin s.sha w.cache [artifact]) as t ∧
      Waits t ⟨0,artifact,.returnOk origin⟩ ∧ t.world.cache = w'.cache) ∧
    ∀ e w', Extensions.acquire s artifact w = .failed e w' → ∃ as t,
      (acquisitions s.sha w.cache [artifact]).Run (begin s.sha w.cache [artifact]) as t ∧
      Waits t ⟨0,artifact,.returnErr e⟩ ∧ t.world.cache = w'.cache := by
  have hmimics : Mimics s.sha 0 (World.initial w.cache) (acquire s.sha 0 artifact)
      (Extensions.acquire s artifact w) := acquire_mimics ⟨rfl,rfl⟩ rfl hname hfree
  refine ⟨fun origin w' h => ?_,fun e w' h => ?_⟩
  · rw [h] at hmimics
    obtain ⟨v',hplays,hshares⟩ := hmimics
    obtain ⟨as,t,hrun,hwaits,rfl⟩ := run_alone hplays hshares.lives
    exact ⟨as,t,hrun,hwaits,hshares.cache⟩
  · rw [h] at hmimics
    obtain ⟨v',hplays,hshares⟩ := hmimics
    obtain ⟨as,t,hrun,hwaits,rfl⟩ := run_alone hplays hshares.lives
    exact ⟨as,t,hrun,hwaits,hshares.cache⟩

end PgEmbedSetup.Acquire
