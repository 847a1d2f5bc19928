import Mathlib.Data.List.Infix
import Custody.Files.Tree
import Custody.Ownership.Fault
import Custody.Proofs.Text.Splitting

/-!
# Paths into folders

The path of a name inside a folder leads where the parts of the name lead from the folder
(`FileTree.locate_joinPath`), unless the name is absolute or the path too long.  So a `PlainName`
leads to the place of that name right in the folder (`FileTree.locate_plain`), and something stands
there exactly if the folder lists the name (`FileTree.at?_down_ne_none_iff`).
-/

namespace Custody

open Text

/-- A text that can stand in a name. -/
structure NamePart (s : String) : Prop where
  slash : '/' ∉ s.toList
  nul : '\x00' ∉ s.toList

/-- A text that names a place in a folder, if it is not too long: neither the folder itself nor the
one above it. -/
structure PlainName (name : String) : Prop extends NamePart name where
  ne_empty : name ≠ ""
  ne_dot : name ≠ "."
  ne_dots : name ≠ ".."

variable {folder name : String}

theorem namePart_append_iff {a b : String} : NamePart (a ++ b) ↔ NamePart a ∧ NamePart b := by
  constructor
  · rintro ⟨hslash, hnul⟩
    rw [String.toList_append, List.mem_append, not_or] at hslash hnul
    exact ⟨⟨hslash.1, hnul.1⟩, hslash.2, hnul.2⟩
  · rintro ⟨ha, hb⟩
    constructor
    · rw [String.toList_append, List.mem_append, not_or]
      exact ⟨ha.slash, hb.slash⟩
    · rw [String.toList_append, List.mem_append, not_or]
      exact ⟨ha.nul, hb.nul⟩

theorem PlainName.head (h : PlainName name) : name.toList.head? ≠ some '/' :=
  fun e => h.slash (List.mem_of_head? e)

/-! ### The parts of a path -/

theorem toList_append_slash (a b : String) :
    (a ++ "/" ++ b).toList = a.toList ++ '/' :: b.toList := by
  rw [String.toList_append, String.toList_append, List.append_assoc]
  rfl

theorem pathParts_append (a b : String) :
    pathParts (a ++ "/" ++ b) = pathParts a ++ pathParts b := by
  rw [pathParts, toList_append_slash, fields_append, List.map_append]
  rfl

theorem pathParts_ne_nil (path : String) : pathParts path ≠ [] := by
  simpa [pathParts] using fields_ne_nil '/' path.toList

theorem pathParts_of_not_mem (h : '/' ∉ name.toList) : pathParts name = [name] := by
  rw [pathParts, fields_of_not_mem h, List.map_singleton, String.ofList_toList]

/-- A name behind a folder stands behind a slash, which is the last character of the folder or one
between the two. -/
theorem joinPath_eq (hfolder : folder ≠ "") (hname : name.toList.head? ≠ some '/') :
    (∃ g, folder = g ++ "/" ++ "" ∧ joinPath folder name = g ++ "/" ++ name) ∨
      joinPath folder name = folder ++ "/" ++ name := by
  rw [joinPath, if_neg (not_or.2 ⟨hfolder, hname⟩)]
  split
  · next h =>
    obtain ⟨cs, hcs⟩ := List.getLast?_eq_some_iff.1 h
    have e : folder = String.ofList cs ++ "/" := by
      rw [← String.toList_inj, hcs, String.toList_append, String.toList_ofList]
      rfl
    exact .inl ⟨String.ofList cs, by rw [String.append_empty]; exact e, by rw [e]⟩
  · exact .inr rfl

theorem toList_joinPath (hfolder : folder ≠ "") (hname : name.toList.head? ≠ some '/') :
    ∃ cs, (joinPath folder name).toList = folder.toList ++ cs ++ name.toList ∧
      ∀ c ∈ cs, c = '/' := by
  rw [joinPath, if_neg (not_or.2 ⟨hfolder, hname⟩)]
  split
  · exact ⟨[], by rw [String.toList_append, List.append_nil], nofun⟩
  · refine ⟨['/'], ?_, fun c hc => List.mem_singleton.1 hc⟩
    rw [toList_append_slash, List.append_assoc]
    rfl

theorem head_joinPath (hfolder : folder ≠ "") (hname : name.toList.head? ≠ some '/') :
    (joinPath folder name).toList.head? = folder.toList.head? := by
  obtain ⟨cs, hcs, -⟩ := toList_joinPath hfolder hname
  have hne : folder.toList ≠ [] := fun e => hfolder (String.toList_eq_nil_iff.1 e)
  rw [hcs, List.append_assoc, List.head?_append, List.head?_eq_some_head hne, Option.some_or]

namespace FileTree

variable {t : FileTree} {q r s : Location} {p : List String} {b : List (List String)} {part : String}

/-! ### Following parts -/

/-- An empty part only asks for a folder, and so does every other part. -/
theorem follow_empty_bind {parts : List String} (h : parts ≠ []) :
    (t.follow q "" >>= fun r => parts.foldlM t.follow r) = parts.foldlM t.follow q := by
  obtain ⟨p, ps, rfl⟩ := List.exists_cons_of_ne_nil h
  cases hq : t.at? q with
  | none => simp [follow, hq, Bind.bind, Except.bind]
  | some n => cases n <;> simp [follow, hq, Bind.bind, Except.bind]

/-- The parts of the path of a name inside a folder lead where those of the name lead from the
folder. -/
theorem foldlM_joinPath (hfolder : folder ≠ "") (hname : name.toList.head? ≠ some '/') :
    (pathParts (joinPath folder name)).foldlM t.follow s =
      (pathParts folder).foldlM t.follow s >>= fun q => (pathParts name).foldlM t.follow q := by
  obtain ⟨g, rfl, e⟩ | e := joinPath_eq hfolder hname
  · have hlast (q : Location) : (pathParts "").foldlM t.follow q = t.follow q "" := by
      rw [show pathParts "" = [""] from rfl, List.foldlM_cons]
      simp
    rw [e, pathParts_append, pathParts_append, List.foldlM_append, List.foldlM_append, bind_assoc]
    exact bind_congr fun q => by rw [hlast, follow_empty_bind (pathParts_ne_nil name)]
  · rw [e, pathParts_append, List.foldlM_append]

/-! ### Names in folders -/

theorem locate_eq_ok_iff {path : String} : t.locate path = .ok q ↔
    '\x00' ∉ path.toList ∧ path ≠ "" ∧ exceeds t.limits.path path = false ∧
      (pathParts path).foldlM t.follow
        (if path.toList.head? = some '/' then Location.around else Location.root) = .ok q := by
  unfold locate
  split
  · next h => simp [h]
  split
  · next h => simp [h]
  split
  · next h => simp [h]
  next hnul hempty hlong =>
  simp [hnul, hempty, hlong]

/-- The path of a name that is not absolute leads where the parts of the name lead from the
folder. -/
theorem locate_joinPath (h : t.locate folder = .ok q) (hname : name.toList.head? ≠ some '/')
    (hnul : '\x00' ∉ name.toList) : t.locate (joinPath folder name) =
      if exceeds t.limits.path (joinPath folder name) then .error .tooLong
      else (pathParts name).foldlM t.follow q := by
  obtain ⟨hfnul, hempty, -, h⟩ := locate_eq_ok_iff.1 h
  obtain ⟨cs, hcs, hslash⟩ := toList_joinPath hempty hname
  have hne : folder.toList ≠ [] := fun e => hempty (String.toList_eq_nil_iff.1 e)
  have hjnul : '\x00' ∉ (joinPath folder name).toList := by
    rw [hcs, List.mem_append, List.mem_append, not_or, not_or]
    exact ⟨⟨hfnul, fun hm => absurd (hslash _ hm) (by decide)⟩, hnul⟩
  have hjempty : joinPath folder name ≠ "" := by
    rw [ne_eq, ← String.toList_eq_nil_iff, hcs]
    simp [hne]
  rw [locate, if_neg hjnul, if_neg hjempty, head_joinPath hempty hname]
  split
  · rfl
  · rw [foldlM_joinPath hempty hname, h]
    rfl

/-- The folder that paths are joined to: the empty text stands for the root. -/
def base (t : FileTree) (folder : String) : Except FileError Location :=
  if folder = "" then .ok .root else t.locate folder

theorem exceeds_joinPath (limit : Option Nat) (hfolder : folder ≠ "")
    (hname : name.toList.head? ≠ some '/') (h : exceeds limit (joinPath folder name) = false) :
    exceeds limit folder = false := by
  have hle : folder.utf8ByteSize ≤ (joinPath folder name).utf8ByteSize := by
    rw [joinPath, if_neg (not_or.2 ⟨hfolder, hname⟩)]
    split <;> simp only [String.utf8ByteSize_append] <;> omega
  cases limit with
  | none => rfl
  | some n =>
    rw [exceeds, Option.any_some, decide_eq_false_iff_not] at h ⊢
    omega

/-- Where a path leads into a folder, if it leads anywhere and the name is not absolute. -/
theorem locate_joinPath_eq_ok_iff (hname : name.toList.head? ≠ some '/') (hne : name ≠ "") :
    t.locate (joinPath folder name) = .ok r ↔
      '\x00' ∉ name.toList ∧ exceeds t.limits.path (joinPath folder name) = false ∧
        ∃ q, t.base folder = .ok q ∧ (pathParts name).foldlM t.follow q = .ok r := by
  by_cases hfolder : folder = ""
  · subst hfolder
    rw [joinPath, if_pos (.inl rfl), locate_eq_ok_iff, if_neg hname]
    simp [base, hne]
  constructor
  · intro h
    obtain ⟨hnul, -, hlong, hwalk⟩ := locate_eq_ok_iff.1 h
    obtain ⟨cs, hcs, -⟩ := toList_joinPath hfolder hname
    rw [hcs, List.mem_append, List.mem_append, not_or, not_or] at hnul
    rw [foldlM_joinPath hfolder hname, head_joinPath hfolder hname, bind_eq_ok_iff] at hwalk
    obtain ⟨q, hq, hwalk⟩ := hwalk
    refine ⟨hnul.2, hlong, q, ?_, hwalk⟩
    rw [base, if_neg hfolder, locate_eq_ok_iff]
    exact ⟨hnul.1.1, hfolder, exceeds_joinPath _ hfolder hname hlong, hq⟩
  · rintro ⟨hnul, hlong, q, hq, hwalk⟩
    rw [base, if_neg hfolder] at hq
    rw [locate_joinPath hq hname hnul, if_neg (by rw [hlong]; decide), hwalk]

/-- The path of a name inside a folder leads nowhere, because it or the name is too long. -/
def TooLong (t : FileTree) (folder name : String) : Prop :=
  exceeds t.limits.path (joinPath folder name) = true ∨ exceeds t.limits.name name = true

instance (t : FileTree) (folder name : String) : Decidable (t.TooLong folder name) :=
  inferInstanceAs (Decidable (_ ∨ _))

theorem not_tooLong_of_limits (h : t.limits = ⟨none, none⟩) : ¬ t.TooLong folder name := by
  rw [TooLong, h]
  exact not_or.2 ⟨Bool.false_ne_true, Bool.false_ne_true⟩

theorem follow_plain (h : t.at? q = some (.folder b)) (hname : PlainName name) :
    t.follow q name =
      if exceeds t.limits.name name then .error .tooLong else .ok (q.down name) := by
  simp only [follow, h, hname.ne_empty, hname.ne_dot, hname.ne_dots, or_self, ↓reduceIte]

theorem eq_down_of_follow (h : t.follow q name = .ok r) (hname : PlainName name) :
    r = q.down name := by
  cases hq : t.at? q with
  | none => simp [follow, hq] at h
  | some n =>
    cases n with
    | file _ => simp [follow, hq] at h
    | folder b =>
      rw [follow_plain hq hname] at h
      split at h
      · cases h
      · exact (Except.ok.inj h).symm

theorem locate_plain_eq (h : t.locate folder = .ok q) (hname : PlainName name) :
    t.locate (joinPath folder name) =
      if exceeds t.limits.path (joinPath folder name) then .error .tooLong
      else t.follow q name := by
  rw [locate_joinPath h hname.head hname.nul, pathParts_of_not_mem hname.slash,
    List.foldlM_cons]
  simp

/-- A plain name leads right into the folder, unless it is too long. -/
theorem locate_plain (h : t.locate folder = .ok q) (hq : t.at? q = some (.folder b))
    (hname : PlainName name) : t.locate (joinPath folder name) =
      if t.TooLong folder name then .error .tooLong else .ok (q.down name) := by
  rw [locate_plain_eq h hname, follow_plain hq hname]
  unfold TooLong
  split <;> simp [*]

/-- A plain name leads nowhere but right into the folder. -/
theorem locate_plain_eq_ok (h : t.locate (joinPath folder name) = .ok r) (hname : PlainName name) :
    ∃ q, t.base folder = .ok q ∧ r = q.down name := by
  obtain ⟨-, -, q, hq, hwalk⟩ := (locate_joinPath_eq_ok_iff hname.head hname.ne_empty).1 h
  rw [pathParts_of_not_mem hname.slash, List.foldlM_cons, bind_eq_ok_iff] at hwalk
  obtain ⟨r', hr, hwalk⟩ := hwalk
  obtain rfl : r' = r := Except.ok.inj hwalk
  exact ⟨q, hq, eq_down_of_follow hr hname⟩

/-! ### What a folder holds -/

theorem node?_folder (h : t.node? p = some (.folder b)) : b = t.below p := by
  unfold node? at h
  split at h
  · cases h
    rfl
  · obtain ⟨f, -, e⟩ := Option.map_eq_some_iff.1 h
    cases e

theorem mem_heads_below_iff : name ∈ (t.below p).filterMap List.head? ↔
    ∃ e ∈ t.files.map Prod.fst ++ t.folders, p ++ [name] <+: e := by
  rw [List.mem_filterMap, below]
  constructor
  · rintro ⟨rest, hrest, hhead⟩
    obtain ⟨e, he, hp⟩ := List.mem_filterMap.1 hrest
    obtain rfl := List.isPrefixOf?_eq_some_iff_append_eq.1 hp
    obtain ⟨l, rfl⟩ := List.head?_eq_some_iff.1 hhead
    exact ⟨_, he, l, by rw [List.append_assoc, List.singleton_append]⟩
  · rintro ⟨_, he, l, rfl⟩
    refine ⟨name :: l, List.mem_filterMap.2 ⟨_, he, ?_⟩, rfl⟩
    rw [List.isPrefixOf?_eq_some_iff_append_eq, List.append_assoc, List.singleton_append]

theorem isFolder_concat_iff : t.isFolder (p ++ [name]) = true ↔
    (∃ e ∈ t.folders, p ++ [name] <+: e) ∨
      ∃ f ∈ t.files, p ++ [name] <+: f.1 ∧ (p ++ [name]).length < f.1.length := by
  simp [isFolder]

theorem node?_ne_none_iff : t.node? p ≠ none ↔ t.isFolder p = true ∨ ∃ f ∈ t.files, f.1 = p := by
  unfold node?
  split
  · next h => simp [h]
  · next h => simp [h]

/-- Something stands at a name in a place exactly if a file or a folder has a path through it. -/
theorem node?_concat_ne_none_iff : t.node? (p ++ [name]) ≠ none ↔
    name ∈ (t.below p).filterMap List.head? := by
  rw [mem_heads_below_iff, node?_ne_none_iff, isFolder_concat_iff]
  constructor
  · rintro ((⟨e, he, hp⟩ | ⟨f, hf, hp, -⟩) | ⟨f, hf, e⟩)
    · exact ⟨e, List.mem_append_right _ he, hp⟩
    · exact ⟨f.1, List.mem_append_left _ (List.mem_map_of_mem hf), hp⟩
    · exact ⟨f.1, List.mem_append_left _ (List.mem_map_of_mem hf), e ▸ List.prefix_rfl⟩
  · rintro ⟨e, he, hp⟩
    rcases List.mem_append.1 he with he | he
    · obtain ⟨f, hf, rfl⟩ := List.mem_map.1 he
      -- the path of a file ends at the name or goes on below it
      obtain hlt | heq := Nat.lt_or_eq_of_le hp.length_le
      · exact .inl (.inr ⟨f, hf, hp, hlt⟩)
      · exact .inr ⟨f, hf, (hp.eq_of_length heq).symm⟩
    · exact .inl (.inl ⟨e, he, hp⟩)

/-- Something stands at a name in a folder exactly if the folder lists the name. -/
theorem at?_down_ne_none_iff (h : t.at? q = some (.folder b)) :
    t.at? (q.down name) ≠ none ↔ name ∈ b.filterMap List.head? := by
  rw [at?] at h ⊢
  show (if q.outside then _ else _) ≠ none ↔ _
  split at h
  · next hout =>
    rw [if_pos hout, node?_folder h]
    exact node?_concat_ne_none_iff
  · next hout =>
    rw [if_neg hout, node?_folder h]
    exact node?_concat_ne_none_iff

/-! ### Reading and listing -/

theorem resolve_eq_ok_iff {path : String} {n : Node} :
    t.resolve path = .ok n ↔ ∃ q, t.locate path = .ok q ∧ t.at? q = some n := by
  rw [resolve, bind_eq_ok_iff]
  refine exists_congr fun q => and_congr_right fun _ => ?_
  cases t.at? q <;> simp

theorem resolve_of_locate {path : String} (h : t.locate path = .ok q) :
    t.resolve path = (t.at? q).elim (.error .notFound) .ok := by
  rw [resolve, h]
  rfl

theorem list_eq_ok_iff {path : String} {names : List String} : t.list path = .ok names ↔
    ∃ q b, t.locate path = .ok q ∧ t.at? q = some (.folder b) ∧
      names = (b.filterMap List.head?).eraseDups := by
  simp only [list, bind_eq_ok_iff, resolve_eq_ok_iff]
  constructor
  · rintro ⟨n, ⟨q, hq, hn⟩, h⟩
    cases n with
    | file bytes => cases h
    | folder b => exact ⟨q, b, hq, hn, (Except.ok.inj h).symm⟩
  · rintro ⟨q, b, hq, hn, rfl⟩
    exact ⟨_, ⟨q, hq, hn⟩, rfl⟩

theorem readText_eq_ok_iff {path text : String} : t.readText path = .ok text ↔
    ∃ q bytes, t.locate path = .ok q ∧ t.at? q = some (.file bytes) ∧ decodeText bytes = .ok text := by
  simp only [readText, bind_eq_ok_iff, resolve_eq_ok_iff]
  constructor
  · rintro ⟨n, ⟨q, hq, hn⟩, h⟩
    cases n with
    | folder b => cases h
    | file bytes => exact ⟨q, bytes, hq, hn, h⟩
  · rintro ⟨q, bytes, hq, hn, h⟩
    exact ⟨_, ⟨q, hq, hn⟩, h⟩

theorem readText_eq_notFound_iff {path : String} :
    t.readText path = .error .notFound ↔ t.resolve path = .error .notFound := by
  rw [readText, bind_eq_error_iff]
  refine or_iff_left ?_
  rintro ⟨n, -, h⟩
  cases n with
  | folder b => cases h
  | file bytes =>
    revert h
    show decodeText bytes ≠ _
    rw [decodeText]
    cases String.fromUTF8? bytes <;> simp

/-- A file that a listed folder does not list is not found, and neither is any other file, unless
its path is too long. -/
theorem readText_joinPath_eq_notFound_iff {names : List String} (h : t.list folder = .ok names)
    (hname : PlainName name) : t.readText (joinPath folder name) = .error .notFound ↔
      name ∉ names ∧ ¬ t.TooLong folder name := by
  obtain ⟨q, b, hq, hb, rfl⟩ := list_eq_ok_iff.1 h
  have hlocate := locate_plain hq hb hname
  rw [readText_eq_notFound_iff, List.mem_eraseDups, ← at?_down_ne_none_iff hb, not_not]
  split at hlocate
  · next hlong => simp [resolve, hlocate, hlong, Bind.bind, Except.bind]
  · next hlong =>
    rw [resolve_of_locate hlocate]
    cases t.at? (q.down name) <;> simp [hlong]

end FileTree

end Custody
