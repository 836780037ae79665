import PgEmbedSetup.Extensions.Layout
import PgEmbedSetup.Library.Utf8

set_option autoImplicit false

/-!
The paths `src/extensions/layout.rs` accepts, as a grammar, and where they lie below a root.
-/

namespace PgEmbedSetup.Extensions
open Library

/-! ### Grammar -/

/-- A part that is empty or `.` names nothing. -/
def namingParts (raw : Bytes) : List Bytes :=
  (raw.splitOn slash).filter fun part => part ≠ [] ∧ part ≠ [dot]

/-- Without `./` in front, `.` components behind it, and duplicate and trailing slashes. -/
def normalForm (raw : Bytes) : Bytes :=
  (if raw.head? = some slash then [slash] else []) ++ List.intercalate [slash] (namingParts raw)

def parentName : Text := ['.','.']

structure Acceptable (raw : Bytes) (relative : RelPath) : Prop where
  is_relative : raw.head? ≠ some slash
  names : namingParts raw = relative.map encodeUtf8
  plain : ∀ part ∈ relative, part ≠ parentName ∧ '\\' ∉ part
  shape : (∃ file, relative = [libDir,file]) ∨
    ∃ part rest, relative = shareDir :: extensionDir :: part :: rest

def normalComponent (part : Text) : Component := .normal (encodeUtf8 part)

/-! ### Parts -/

theorem encodeUtf8_parentName : encodeUtf8 parentName = [dot,dot] := by decide

theorem not_mem_of_mem_splitOn {raw part : Bytes} (h : part ∈ raw.splitOn slash) :
    slash ∉ part :=
  fun hmem => (exists_mem_splitOn.mp ⟨part,h,hmem⟩).2 rfl

theorem slash_mem_encode {part : Text} (h : '/' ∈ part) : slash ∈ encodeUtf8 part :=
  List.mem_flatMap.mpr ⟨_,h,by decide⟩

theorem mem_namingParts {raw part : Bytes} (h : part ∈ namingParts raw) :
    part ∈ raw.splitOn slash ∧ part ≠ [] ∧ part ≠ [dot] := by
  simpa [namingParts] using h

/-- What a part that names something stands for. -/
def named (part : Bytes) : Component := if part = [dot,dot] then .parentDir else .normal part

theorem filterMap_component (segments : List Bytes) :
    segments.filterMap component =
      (segments.filter fun part => part ≠ [] ∧ part ≠ [dot]).map named := by
  induction segments with
  | nil => rfl
  | cons segment segments ih =>
    by_cases hnone : segment = [] ∨ segment = [dot]
    · have hfilter : ¬ (segment ≠ [] ∧ segment ≠ [dot]) := fun h => hnone.elim h.1 h.2
      rw [List.filterMap_cons_none (by rw [component,if_pos hnone]),
        List.filter_cons_of_neg (by simpa using hfilter)]
      exact ih
    · have hfilter : segment ≠ [] ∧ segment ≠ [dot] := not_or.mp hnone
      have hcomponent : component segment = some (named segment) := by
        rw [component,if_neg hnone,named]
        split <;> rfl
      rw [List.filterMap_cons_some hcomponent,List.filter_cons_of_pos (by simpa using hfilter),
        List.map_cons,ih]

/-- What a path starts from, before its names. -/
def front (raw : Bytes) : List Component :=
  if raw.head? = some slash then [.rootDir]
  else if (raw.splitOn slash).head? = some [dot] then [.curDir]
  else []

theorem components_eq (raw : Bytes) :
    components raw = front raw ++ (namingParts raw).map named := by
  rw [components,filterMap_component]
  rfl

theorem named_eq {segment : Bytes} {part : Text} :
    named segment = normalComponent part ↔ segment = encodeUtf8 part ∧ part ≠ parentName := by
  rw [named,normalComponent]
  by_cases hparent : segment = [dot,dot]
  · rw [if_pos hparent]
    refine ⟨fun h => Component.noConfusion h,fun h => absurd ?_ h.2⟩
    exact encodeUtf8_injective (h.1.symm.trans (hparent.trans encodeUtf8_parentName.symm))
  · rw [if_neg hparent,Component.normal.injEq]
    refine ⟨fun h => ⟨h,?_⟩,fun h => h.1⟩
    rintro rfl
    exact hparent (h.trans encodeUtf8_parentName)

theorem map_named (segments : List Bytes) (relative : RelPath) :
    segments.map named = relative.map normalComponent ↔
      segments = relative.map encodeUtf8 ∧ ∀ part ∈ relative, part ≠ parentName := by
  induction segments generalizing relative with
  | nil => cases relative <;> simp
  | cons segment segments ih =>
    cases relative with
    | nil => simp
    | cons part relative =>
      rw [List.map_cons,List.map_cons,List.map_cons,List.cons.injEq,List.cons.injEq,named_eq,ih,
        List.forall_mem_cons]
      tauto

/-! ### Reading components -/

theorem plainComponent_eq_some {part text : Text} :
    plainComponent part = some text ↔ part = text ∧ '\\' ∉ text ∧ '/' ∉ text := by
  rw [plainComponent,Option.ite_none_right_eq_some,Option.some.injEq]
  constructor
  · rintro ⟨hplain,rfl⟩
    exact ⟨rfl,hplain⟩
  · rintro ⟨rfl,hplain⟩
    exact ⟨hplain,rfl⟩

theorem normalFrom_normal {index : Nat} {part : Bytes} {found : List Component}
    {relative : RelPath} :
    normalFrom index (.normal part :: found) = some relative ↔
      ∃ text parts, part = encodeUtf8 text ∧ ('\\' ∉ text ∧ '/' ∉ text) ∧
        normalFrom (index+1) found = some parts ∧ text :: parts = relative := by
  have hread : normalFrom index (.normal part :: found) =
      ((decodeUtf8 part).bind plainComponent).bind fun text =>
        (normalFrom (index+1) found).bind fun parts => some (text :: parts) := by
    cases index <;> rfl
  simp only [hread,Option.bind_eq_some_iff,Option.some.injEq]
  constructor
  · rintro ⟨text,⟨decoded,hdecoded,hplain⟩,parts,hparts,rfl⟩
    obtain ⟨rfl,hclean⟩ := plainComponent_eq_some.mp hplain
    exact ⟨decoded,parts,(encodeUtf8_of_decodeUtf8 hdecoded).symm,hclean,hparts,rfl⟩
  · rintro ⟨text,parts,rfl,hclean,hparts,rfl⟩
    exact ⟨text,⟨text,decodeUtf8_encodeUtf8 text,plainComponent_eq_some.mpr ⟨rfl,hclean⟩⟩,parts,
      hparts,rfl⟩

/-- Behind the front only plain UTF-8 names are read. -/
theorem normalFrom_succ (index : Nat) (found : List Component) (relative : RelPath) :
    normalFrom (index+1) found = some relative ↔
      found = relative.map normalComponent ∧ ∀ part ∈ relative, '\\' ∉ part ∧ '/' ∉ part := by
  induction found generalizing index relative with
  | nil => cases relative <;> simp [normalFrom]
  | cons first found ih =>
    cases first with
    | rootDir => cases relative <;> simp [normalFrom,normalComponent]
    | curDir => cases relative <;> simp [normalFrom,normalComponent]
    | parentDir => cases relative <;> simp [normalFrom,normalComponent]
    | normal part =>
      rw [normalFrom_normal]
      constructor
      · rintro ⟨text,parts,rfl,hclean,hparts,rfl⟩
        obtain ⟨rfl,hrest⟩ := (ih _ _).mp hparts
        exact ⟨rfl,List.forall_mem_cons.mpr ⟨hclean,hrest⟩⟩
      · rintro ⟨hfound,hclean⟩
        cases relative with
        | nil => cases hfound
        | cons text parts =>
          obtain ⟨hfirst,hrest⟩ := List.cons.inj hfound
          obtain ⟨htext,hparts⟩ := List.forall_mem_cons.mp hclean
          exact ⟨text,parts,Component.normal.inj hfirst,htext,(ih _ _).mpr ⟨hrest,hparts⟩,rfl⟩

/-- In front one `.` is passed over. -/
theorem normalFrom_zero (found : List Component) {relative : RelPath} (hrel : relative ≠ []) :
    normalFrom 0 found = some relative ↔
      (found = relative.map normalComponent ∨ found = .curDir :: relative.map normalComponent) ∧
        ∀ part ∈ relative, '\\' ∉ part ∧ '/' ∉ part := by
  cases found with
  | nil => simpa [normalFrom] using fun h : relative = [] => absurd h hrel
  | cons first found =>
    cases first with
    | rootDir => cases relative <;> simp [normalFrom,normalComponent]
    | parentDir => cases relative <;> simp [normalFrom,normalComponent]
    | curDir =>
      have hnot : ¬ Component.curDir :: found = relative.map normalComponent := by
        cases relative <;> simp [normalComponent]
      rw [or_iff_right hnot,List.cons.injEq,and_iff_right rfl]
      exact normalFrom_succ 0 found relative
    | normal part =>
      have hnot : ¬ Component.normal part :: found = .curDir :: relative.map normalComponent := by
        simp
      rw [or_iff_left hnot,← normalFrom_succ 0,normalFrom_normal,normalFrom_normal]
      simp only [normalFrom_succ]

theorem isAllowedLayout_iff {relative : RelPath} :
    isAllowedLayout relative ↔ (∃ file, relative = [libDir,file]) ∨
      ∃ part rest, relative = shareDir :: extensionDir :: part :: rest := by
  match relative with
  | [] => simp [isAllowedLayout]
  | [_] => simp [isAllowedLayout]
  | [top,file] => simp [isAllowedLayout]
  | top :: next :: part :: rest => simp [isAllowedLayout]

/-! ### Acceptance -/

theorem named_ne_curDir (part : Bytes) : named part ≠ .curDir := by
  rw [named]
  split <;> simp

/-- Only a path without a root reads as names, with or without `.` in front. -/
theorem components_relative (raw : Bytes) (relative : RelPath) :
    (components raw = relative.map normalComponent ∨
        components raw = .curDir :: relative.map normalComponent) ↔
      raw.head? ≠ some slash ∧ (namingParts raw).map named = relative.map normalComponent := by
  rw [components_eq,front]
  by_cases hroot : raw.head? = some slash
  · have hnot : ¬ Component.rootDir :: (namingParts raw).map named =
        relative.map normalComponent := by
      cases relative <;> simp [normalComponent]
    simp [hroot,hnot]
  rw [if_neg hroot,and_iff_right hroot]
  by_cases hdot : (raw.splitOn slash).head? = some [dot]
  · have hnot : ¬ Component.curDir :: (namingParts raw).map named =
        relative.map normalComponent := by
      cases relative <;> simp [normalComponent]
    rw [if_pos hdot,List.singleton_append,or_iff_right hnot,List.cons.injEq,and_iff_right rfl]
  · have hnot : ¬ (namingParts raw).map named = .curDir :: relative.map normalComponent := by
      cases namingParts raw with
      | nil => simp
      | cons part parts => simp [named_ne_curDir]
    rw [if_neg hdot,List.nil_append,or_iff_left hnot]

theorem ne_nil_of_shape {relative : RelPath}
    (h : (∃ file, relative = [libDir,file]) ∨
      ∃ part rest, relative = shareDir :: extensionDir :: part :: rest) : relative ≠ [] := by
  rcases h with ⟨file,rfl⟩ | ⟨part,rest,rfl⟩ <;> exact List.cons_ne_nil _ _

theorem classifyEntryPath_eq_some {raw : Bytes} {relative : RelPath} :
    classifyEntryPath raw = some relative ↔ Acceptable raw relative := by
  rw [classifyEntryPath,Option.filter_eq_some_iff,isAllowedLayout_iff,normalComponents]
  constructor
  · rintro ⟨hread,hshape⟩
    obtain ⟨hfound,hclean⟩ := (normalFrom_zero _ (ne_nil_of_shape hshape)).mp hread
    obtain ⟨hroot,hnamed⟩ := (components_relative raw relative).mp hfound
    obtain ⟨hnames,hparent⟩ := (map_named _ _).mp hnamed
    exact ⟨hroot,hnames,fun part hpart => ⟨hparent part hpart,(hclean part hpart).1⟩,hshape⟩
  · rintro ⟨hroot,hnames,hplain,hshape⟩
    have hnamed := (map_named _ _).mpr ⟨hnames,fun part hpart => (hplain part hpart).1⟩
    have hfound := (components_relative raw relative).mpr ⟨hroot,hnamed⟩
    refine ⟨(normalFrom_zero _ (ne_nil_of_shape hshape)).mpr ⟨hfound,fun part hpart => ?_⟩,hshape⟩
    have hmem : encodeUtf8 part ∈ namingParts raw := hnames ▸ List.mem_map_of_mem hpart
    have hslash := not_mem_of_mem_splitOn (mem_namingParts hmem).1
    exact ⟨(hplain part hpart).2,fun h => hslash (slash_mem_encode h)⟩

/-! ### The result as a path -/

theorem encodeUtf8_joined (relative : RelPath) :
    encodeUtf8 relative.joined = List.intercalate [slash] (relative.map encodeUtf8) := by
  rw [RelPath.joined]
  induction relative with
  | nil => rfl
  | cons part relative ih =>
    cases relative with
    | nil => simp
    | cons next relative =>
      have hslash : encodeUtf8 ['/'] = [slash] := by decide
      rw [List.intercalate_cons_cons,encodeUtf8_append,encodeUtf8_append,ih,hslash]
      simp only [List.map_cons,List.intercalate_cons_cons]

/-- `Path::join`. -/
def pathJoin (root path : Bytes) : Bytes :=
  if path.head? = some slash then path
  else if root = [] ∨ root.getLast? = some slash then root ++ path
  else root ++ slash :: path

theorem namingParts_append (root path : Bytes) :
    namingParts (root ++ slash :: path) = namingParts root ++ namingParts path := by
  rw [namingParts,List.splitOn_append_cons_self,List.filter_append]
  rfl

theorem namingParts_trailing (root : Bytes) : namingParts (root ++ [slash]) = namingParts root := by
  rw [namingParts_append]
  exact List.append_nil _

theorem front_append {root : Bytes} (path : Bytes) (hroot : root ≠ []) :
    front (root ++ slash :: path) = front root := by
  have hhead : (root ++ slash :: path).head? = root.head? := List.head?_append_of_ne_nil _ hroot
  have hsplit : ((root ++ slash :: path).splitOn slash).head? = (root.splitOn slash).head? := by
    rw [List.splitOn_append_cons_self,List.head?_append_of_ne_nil _ (List.splitOn_ne_nil _ _)]
  rw [front,hhead,hsplit,front]

/-- A name below a root keeps the root's components in front of its own. -/
theorem components_pathJoin (root : Bytes) {path : Bytes} (hfront : front path = [])
    (hroot : path.head? ≠ some slash) :
    components (pathJoin root path) = components root ++ (namingParts path).map named := by
  rw [pathJoin,if_neg hroot]
  by_cases hempty : root = []
  · rw [if_pos (.inl hempty),hempty,List.nil_append,components_eq,hfront]
    rfl
  by_cases htrailing : root.getLast? = some slash
  · obtain ⟨stem,rfl⟩ : ∃ stem, stem ++ [slash] = root :=
      ⟨root.dropLast,List.dropLast_append_getLast? slash htrailing⟩
    rw [if_pos (.inr htrailing),List.append_assoc,List.singleton_append,components_eq,components_eq,
      namingParts_append,namingParts_trailing,List.map_append,List.append_assoc]
    cases stem with
    | nil => rfl
    | cons b stem =>
      rw [front_append _ (List.cons_ne_nil b stem),front_append _ (List.cons_ne_nil b stem)]
  · rw [if_neg (not_or.mpr ⟨hempty,htrailing⟩),components_eq,components_eq,namingParts_append,
      front_append _ hempty,List.map_append,List.append_assoc]

theorem splitOn_joined {raw : Bytes} {relative : RelPath} (h : Acceptable raw relative) :
    (encodeUtf8 relative.joined).splitOn slash = relative.map encodeUtf8 := by
  rw [encodeUtf8_joined,← h.names]
  refine List.splitOn_intercalate slash (fun part hpart => ?_) ?_
  · exact not_mem_of_mem_splitOn (mem_namingParts hpart).1
  · rw [h.names]
    exact fun hnil => ne_nil_of_shape h.shape (List.map_eq_nil_iff.mp hnil)

theorem namingParts_joined {raw : Bytes} {relative : RelPath} (h : Acceptable raw relative) :
    namingParts (encodeUtf8 relative.joined) = relative.map encodeUtf8 := by
  rw [namingParts,splitOn_joined h,← h.names]
  refine List.filter_eq_self.mpr fun part hpart => ?_
  simpa using (mem_namingParts hpart).2

theorem head_joined {raw : Bytes} {relative : RelPath} (h : Acceptable raw relative) :
    (encodeUtf8 relative.joined).head? ≠ some slash := by
  rw [encodeUtf8_joined]
  rcases h.shape with ⟨file,rfl⟩ | ⟨part,rest,rfl⟩
  · exact fun hhead => absurd (Option.some.inj hhead) (by decide)
  · exact fun hhead => absurd (Option.some.inj hhead) (by decide)

theorem front_joined {raw : Bytes} {relative : RelPath} (h : Acceptable raw relative) :
    front (encodeUtf8 relative.joined) = [] := by
  have hdot : (relative.map encodeUtf8).head? ≠ some [dot] := by
    rcases h.shape with ⟨file,rfl⟩ | ⟨part,rest,rfl⟩
    · exact fun hhead => absurd (Option.some.inj hhead) (by decide)
    · exact fun hhead => absurd (Option.some.inj hhead) (by decide)
  rw [front,if_neg (head_joined h),splitOn_joined h,if_neg hdot]

theorem Acceptable.joined {raw : Bytes} {relative : RelPath} (h : Acceptable raw relative) :
    Acceptable (encodeUtf8 relative.joined) relative where
  is_relative := head_joined h
  names := namingParts_joined h
  plain := h.plain
  shape := h.shape

theorem normalForm_eq {raw : Bytes} {relative : RelPath} (h : Acceptable raw relative) :
    normalForm raw = encodeUtf8 relative.joined := by
  rw [normalForm,if_neg h.is_relative,h.names,encodeUtf8_joined,List.nil_append]

/-- Below any root the accepted path has the root's components, then its own names. -/
theorem components_below {raw : Bytes} {relative : RelPath} (h : Acceptable raw relative)
    (root : Bytes) :
    components (pathJoin root (encodeUtf8 relative.joined)) =
      components root ++ relative.map normalComponent := by
  rw [components_pathJoin root (front_joined h) (head_joined h),namingParts_joined h,
    (map_named _ _).mpr ⟨rfl,fun part hpart => (h.plain part hpart).1⟩]

/-- The directories below `root` an accepted path may name a file in. -/
def allowedDirs (root : Bytes) : List (List Component) :=
  [components root ++ [normalComponent libDir],
    components root ++ [normalComponent shareDir,normalComponent extensionDir]]

theorem classifyEntryPath_grammar (raw : Bytes) :
    (∀ relative, classifyEntryPath raw = some relative ↔ Acceptable raw relative) ∧
      ∀ relative, classifyEntryPath raw = some relative →
        encodeUtf8 relative.joined = normalForm raw ∧
        classifyEntryPath (encodeUtf8 relative.joined) = some relative ∧
        ∀ root, ∃ dir ∈ allowedDirs root, ∃ names : List Text, names ≠ [] ∧
          components (pathJoin root (encodeUtf8 relative.joined)) =
            dir ++ names.map normalComponent := by
  refine ⟨fun relative => classifyEntryPath_eq_some,fun relative haccepted => ?_⟩
  have h := classifyEntryPath_eq_some.mp haccepted
  refine ⟨(normalForm_eq h).symm,classifyEntryPath_eq_some.mpr h.joined,fun root => ?_⟩
  rw [components_below h root]
  rcases h.shape with ⟨file,rfl⟩ | ⟨part,rest,rfl⟩
  · refine ⟨_,List.mem_cons_self,[file],List.cons_ne_nil _ _,?_⟩
    rw [List.append_assoc]
    rfl
  · refine ⟨_,List.mem_cons_of_mem _ List.mem_cons_self,part :: rest,List.cons_ne_nil _ _,?_⟩
    rw [List.append_assoc]
    rfl

end PgEmbedSetup.Extensions
