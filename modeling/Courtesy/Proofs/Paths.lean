import Courtesy.Proofs.Lexemes
import Courtesy.Proofs.Trees

/-!
# Paths and places

A path is followed name by name from the root or from the working directory. `Disk.Leads` says which
place the names of a path lead to, without the limits that a lookup checks first
(`Disk.lookup_eq_ok_iff`). A shortened path leads where the path itself leads (`Disk.Leads.clean`),
and a path made longer by names leads further down (`Disk.Leads.slash_iff`, `Disk.Leads.below`).
-/

namespace Courtesy

namespace Text

theorem toList_unlines_cons (l : String) (ls : List String) :
    (unlines (l :: ls)).toList = l.toList ++ '\n' :: (unlines ls).toList := by
  simp [unlines, String.join_cons]

theorem split_append_cut {p : Char → Bool} {c : Char} (hc : p c = true) (xs ys : List Char) :
    split p (xs ++ c :: ys) = split p xs ++ split p ys := by
  induction xs with
  | nil =>
    rw [List.nil_append, split_cons, if_pos hc]
    rfl
  | cons x xs ih =>
    rw [List.cons_append, split_cons, split_cons, ih]
    split
    · rfl
    · obtain ⟨w, ws, hw⟩ := List.exists_cons_of_ne_nil (split_ne_nil p xs)
      rw [hw]
      rfl

theorem split_uncut {p : Char → Bool} {cs : List Char} (h : ∀ c ∈ cs, p c = false) :
    split p cs = [cs] := by
  induction cs with
  | nil => rfl
  | cons c cs ih =>
    obtain ⟨hc, hcs⟩ := List.forall_mem_cons.1 h
    rw [split_cons, hc, ih hcs]
    rfl

theorem uncut_of_mem_split {p : Char → Bool} {cs w : List Char} (hw : w ∈ split p cs) :
    ∀ c ∈ w, p c = false := by
  induction cs generalizing w with
  | nil =>
    rw [split_nil, List.mem_singleton] at hw
    simp [hw]
  | cons d cs ih =>
    rw [split_cons] at hw
    split at hw
    · rcases List.mem_cons.1 hw with rfl | hw
      · simp
      · exact ih hw
    · rename_i hd
      obtain ⟨v, vs, hs⟩ := List.exists_cons_of_ne_nil (split_ne_nil p cs)
      rw [hs] at hw ih
      rcases List.mem_cons.1 hw with rfl | hw
      · exact List.forall_mem_cons.2 ⟨Bool.eq_false_iff.2 hd, ih List.mem_cons_self⟩
      · exact ih (List.mem_cons_of_mem v hw)

end Text

/-! ## Elements -/

namespace Path

open Text

theorem toList_slash : "/".toList = ['/'] := rfl

theorem elements_slash (a b : String) : elements (a ++ "/" ++ b) = elements a ++ elements b := by
  unfold elements
  rw [String.toList_append, String.toList_append, toList_slash, List.append_assoc,
    List.singleton_append, split_append_cut rfl, List.map_append]

theorem elements_of_slashless {name : String} (h : '/' ∉ name.toList) : elements name = [name] := by
  unfold elements
  rw [split_uncut, List.map_singleton, String.ofList_toList]
  intro c hc
  rw [beq_eq_false_iff_ne]
  rintro rfl
  exact h hc

theorem slashless_of_mem_elements {path name : String} (h : name ∈ elements path) :
    '/' ∉ name.toList := by
  obtain ⟨w, hw, rfl⟩ := List.mem_map.1 h
  rw [String.toList_ofList]
  intro hm
  exact absurd (uncut_of_mem_split hw '/' hm) (by decide)

theorem mem_of_mem_elements {path name : String} {c : Char} (h : name ∈ elements path)
    (hc : c ∈ name.toList) : c ∈ path.toList := by
  obtain ⟨w, hw, rfl⟩ := List.mem_map.1 h
  rw [String.toList_ofList] at hc
  exact Lexeme.mem_of_mem_split hw hc

theorem elements_intercalate {names : List String} (hne : names ≠ [])
    (h : ∀ name ∈ names, '/' ∉ name.toList) : elements ("/".intercalate names) = names := by
  induction names with
  | nil => exact absurd rfl hne
  | cons a names ih =>
    obtain ⟨ha, hrest⟩ := List.forall_mem_cons.1 h
    cases names with
    | nil => rw [String.intercalate_singleton, elements_of_slashless ha]
    | cons b rest =>
      rw [String.intercalate_cons_cons, elements_slash, elements_of_slashless ha,
        ih (List.cons_ne_nil b rest) hrest]
      rfl

theorem mem_intercalate {names : List String} {c : Char} (h : c ∈ ("/".intercalate names).toList) :
    c = '/' ∨ ∃ name ∈ names, c ∈ name.toList := by
  induction names with
  | nil => cases h
  | cons a names ih =>
    cases names with
    | nil =>
      rw [String.intercalate_singleton] at h
      exact .inr ⟨a, List.mem_cons_self, h⟩
    | cons b rest =>
      rw [toList_intercalate_cons_cons, toList_slash] at h
      rcases List.mem_append.1 h with h | h
      · exact .inr ⟨a, List.mem_cons_self, h⟩
      · rcases List.mem_cons.1 h with rfl | h
        · exact .inl rfl
        · rcases ih h with hc | ⟨name, hname, hc⟩
          · exact .inl hc
          · exact .inr ⟨name, List.mem_cons_of_mem a hname, hc⟩

theorem isRooted_slash {a : String} (ha : a ≠ "") (b : String) :
    isRooted (a ++ "/" ++ b) = isRooted a := by
  unfold isRooted startsWith
  rw [String.toList_append, String.toList_append, toList_slash]
  cases hl : a.toList with
  | nil => exact absurd (String.toList_eq_nil_iff.1 hl) ha
  | cons c cs => simp [List.isPrefixOf]

/-! ## Shortened paths -/

/-- What is kept of a path: names and leading `..` elements. -/
theorem mem_keep {rooted : Bool} {kept : List String} {element name : String}
    (h : name ∈ keep rooted kept element) :
    name ∈ kept ∨ (name = element ∨ name = "..") ∧ name ≠ "" ∧ name ≠ "." := by
  unfold keep at h
  split at h
  · exact .inl h
  · rename_i hplain
    have hne : element ≠ "" ∧ element ≠ "." := by simpa using hplain
    split at h
    · split at h
      · split at h
        · cases h
        · rw [List.mem_singleton] at h
          exact .inr ⟨.inr h, by rw [h]; decide⟩
      · rcases List.mem_cons.1 h with rfl | h
        · exact .inr ⟨.inr rfl, by decide⟩
        · exact .inl h
      · exact .inl (List.mem_cons_of_mem _ h)
    · rcases List.mem_cons.1 h with rfl | h
      · exact .inr ⟨.inl rfl, hne⟩
      · exact .inl h

theorem mem_foldl_keep {rooted : Bool} {elements kept : List String} {name : String}
    (h : name ∈ elements.foldl (keep rooted) kept) :
    name ∈ kept ∨ (name ∈ elements ∨ name = "..") ∧ name ≠ "" ∧ name ≠ "." := by
  induction elements generalizing kept with
  | nil => exact .inl h
  | cons e es ih =>
    rcases ih h with h | ⟨h, hne⟩
    · rcases mem_keep h with h | ⟨h, hne⟩
      · exact .inl h
      · refine .inr ⟨h.imp_left ?_, hne⟩
        rintro rfl
        exact List.mem_cons_self
    · exact .inr ⟨h.imp_left (List.mem_cons_of_mem e), hne⟩

theorem mem_cleanElements {path name : String} (h : name ∈ cleanElements path) :
    (name ∈ elements path ∨ name = "..") ∧ name ≠ "" := by
  rcases mem_foldl_keep (List.mem_reverse.1 h) with h | ⟨h, hne, -⟩
  · cases h
  · exact ⟨h, hne⟩

theorem slashless_of_mem_cleanElements {path name : String} (h : name ∈ cleanElements path) :
    '/' ∉ name.toList := by
  rcases (mem_cleanElements h).1 with h | rfl
  · exact slashless_of_mem_elements h
  · decide

theorem intercalate_ne_empty {names : List String} (hne : names ≠ [])
    (h : ∀ name ∈ names, name ≠ "") : "/".intercalate names ≠ "" := by
  match names with
  | [] => exact absurd rfl hne
  | [a] =>
    rw [String.intercalate_singleton]
    exact h a List.mem_cons_self
  | a :: b :: rest =>
    intro hempty
    have := congrArg String.toList hempty
    rw [toList_intercalate_cons_cons, toList_slash] at this
    simp at this

theorem clean_rooted {path : String} (h : isRooted path = true) :
    clean path = "/" ++ "/".intercalate (cleanElements path) := if_pos h

theorem clean_nil {path : String} (h : isRooted path = false) (hnil : cleanElements path = []) :
    clean path = "." := by
  unfold clean
  rw [hnil, h]
  rfl

theorem clean_cons {path : String} (h : isRooted path = false) (hne : cleanElements path ≠ []) :
    clean path = "/".intercalate (cleanElements path) := by
  have hkept : "/".intercalate (cleanElements path) ≠ "" :=
    intercalate_ne_empty hne fun name hname => (mem_cleanElements hname).2
  unfold clean
  rw [h, if_neg Bool.false_ne_true, if_neg (by simpa using hkept)]

theorem isRooted_intercalate {names : List String}
    (h : ∀ name ∈ names, name ≠ "" ∧ '/' ∉ name.toList) :
    isRooted ("/".intercalate names) = false := by
  have hhead : ∀ (name : String) (rest : List Char), name ≠ "" → '/' ∉ name.toList →
      ['/'].isPrefixOf (name.toList ++ rest) = false := by
    intro name rest hne hslash
    cases hl : name.toList with
    | nil => exact absurd (String.toList_eq_nil_iff.1 hl) hne
    | cons c cs =>
      rw [hl] at hslash
      have hc : '/' ≠ c := fun hc => hslash (hc ▸ List.mem_cons_self)
      simp [List.isPrefixOf, hc]
  unfold isRooted startsWith
  rw [toList_slash]
  match names with
  | [] => rfl
  | [a] =>
    obtain ⟨hne, hslash⟩ := h a List.mem_cons_self
    rw [String.intercalate_singleton, ← List.append_nil a.toList]
    exact hhead a [] hne hslash
  | a :: b :: rest =>
    obtain ⟨hne, hslash⟩ := h a List.mem_cons_self
    rw [toList_intercalate_cons_cons]
    exact hhead a _ hne hslash

theorem isRooted_clean (path : String) : isRooted (clean path) = isRooted path := by
  cases h : isRooted path with
  | true =>
    rw [clean_rooted h, isRooted, startsWith, String.toList_append, toList_slash]
    rfl
  | false =>
    rcases Decidable.em (cleanElements path = []) with hnil | hne
    · rw [clean_nil h hnil]
      rfl
    · rw [clean_cons h hne]
      apply isRooted_intercalate
      intro name hname
      exact ⟨(mem_cleanElements hname).2, slashless_of_mem_cleanElements hname⟩

theorem clean_ne_empty (path : String) : clean path ≠ "" := by
  cases h : isRooted path with
  | true =>
    rw [clean_rooted h]
    intro hempty
    have := congrArg String.toList hempty
    rw [String.toList_append, toList_slash] at this
    cases this
  | false =>
    rcases Decidable.em (cleanElements path = []) with hnil | hne
    · rw [clean_nil h hnil]
      decide
    · rw [clean_cons h hne]
      exact intercalate_ne_empty hne fun name hname => (mem_cleanElements hname).2

/-- A shortened path has no characters of its own but slashes and dots. -/
theorem mem_of_mem_clean {path : String} {c : Char} (h : c ∈ (clean path).toList) :
    c ∈ path.toList ∨ c = '/' ∨ c = '.' := by
  have hkept : c ∈ ("/".intercalate (cleanElements path)).toList →
      c ∈ path.toList ∨ c = '/' ∨ c = '.' := by
    intro h
    rcases mem_intercalate h with hc | ⟨name, hname, hc⟩
    · exact .inr (.inl hc)
    · rcases (mem_cleanElements hname).1 with hname | rfl
      · exact .inl (mem_of_mem_elements hname hc)
      · exact .inr (.inr (by simpa using hc))
  cases hr : isRooted path with
  | true =>
    rw [clean_rooted hr, String.toList_append, toList_slash] at h
    rcases List.mem_cons.1 h with rfl | h
    · exact .inr (.inl rfl)
    · exact hkept h
  | false =>
    rcases Decidable.em (cleanElements path = []) with hnil | hne
    · rw [clean_nil hr hnil] at h
      exact .inr (.inr (by simpa using h))
    · rw [clean_cons hr hne] at h
      exact hkept h

theorem dropSlashes_append {name : String} (hne : name ≠ "") (hslash : '/' ∉ name.toList)
    (front : String) : dropSlashes (front ++ name) = front ++ name := by
  obtain ⟨c, cs, hc⟩ := List.exists_cons_of_ne_nil
    (show name.toList.reverse ≠ [] by simpa using hne)
  have hlast : (c == '/') = false := by
    rw [beq_eq_false_iff_ne]
    rintro rfl
    exact hslash (List.mem_reverse.1 (hc ▸ List.mem_cons_self))
  unfold dropSlashes
  rw [String.toList_append, List.reverse_append, hc, List.cons_append, List.dropWhile_cons, hlast,
    if_neg Bool.false_ne_true, ← List.cons_append, ← hc, ← List.reverse_append,
      List.reverse_reverse,
    ← String.toList_append, String.ofList_toList]

theorem base_slashless {name : String} (hne : name ≠ "") (hslash : '/' ∉ name.toList) :
    base name = name := by
  have hbare := dropSlashes_append hne hslash ""
  rw [String.empty_append] at hbare
  unfold base
  dsimp only
  rw [if_neg (by simpa using hne), hbare, if_neg (by simpa using hne), elements_of_slashless hslash]
  rfl

/-- The last element of a path that has been made longer by a name. -/
theorem base_slash {name : String} (hne : name ≠ "") (hslash : '/' ∉ name.toList) (path : String) :
    base (path ++ "/" ++ name) = name := by
  unfold base
  dsimp only
  rw [if_neg (by simp), dropSlashes_append hne hslash, if_neg (by simp), elements_slash,
    elements_of_slashless hslash, List.getLast?_concat]
  rfl

end Path

/-! ## Following names -/

namespace Disk

open Courtesy.Path

variable {d : Disk} {t : Tree} {p q r : Place} {path name : String}

theorem names_slash (a b : String) : names (a ++ "/" ++ b) = names a ++ names b := by
  unfold names
  rw [elements_slash, List.filter_append]

theorem namesFolder_slash (hname : IsName name) (path : String) :
    namesFolder (path ++ "/" ++ name) = false := by
  have hne : name.toList ≠ [] := by simpa using hname.ne_empty
  unfold namesFolder Text.endsWith
  rw [Bool.eq_false_iff, Ne, List.isSuffixOf_iff_suffix, toList_slash, String.toList_append]
  rintro ⟨front, h⟩
  rw [← List.dropLast_concat_getLast hne, ← List.append_assoc] at h
  have hlast : ['/'] = [name.toList.getLast hne] := List.append_inj_right' h rfl
  apply hname.slashless
  rw [(List.cons.inj hlast).1]
  exact List.getLast_mem hne

theorem names_intercalate {l : List String} (h : ∀ n ∈ l, n ≠ "" ∧ '/' ∉ n.toList) :
    names ("/".intercalate l) = l := by
  unfold names
  rcases Decidable.em (l = []) with rfl | hne
  · rfl
  · rw [elements_intercalate hne fun n hn => (h n hn).2, List.filter_eq_self]
    intro n hn
    exact bne_iff_ne.2 (h n hn).1

theorem names_clean (path : String) :
    names (clean path) = cleanElements path ∨
      names (clean path) = ["."] ∧ cleanElements path = [] := by
  have hkept : names ("/".intercalate (cleanElements path)) = cleanElements path := by
    apply names_intercalate
    intro name hname
    exact ⟨(mem_cleanElements hname).2, slashless_of_mem_cleanElements hname⟩
  cases h : isRooted path with
  | true =>
    have hslash := names_slash "" ("/".intercalate (cleanElements path))
    rw [String.empty_append, hkept] at hslash
    rw [clean_rooted h, hslash]
    exact .inl rfl
  | false =>
    rcases Decidable.em (cleanElements path = []) with hnil | hne
    · rw [clean_nil h hnil]
      exact .inr ⟨by decide, hnil⟩
    · rw [clean_cons h hne, hkept]
      exact .inl rfl

theorem step_eq_ok_iff :
    step t p name = .ok q ↔ t.get? p = some .folder ∧
      (name = "." ∧ q = p ∨ name = ".." ∧ q = p.dropLast ∨
        name ≠ "." ∧ name ≠ ".." ∧ name.utf8ByteSize ≤ maxName ∧ (t.get? (p ++ [name])).isSome ∧
          q = p ++ [name]) := by
  unfold step
  cases hp : t.get? p with
  | none => simp
  | some e =>
    cases e with
    | file content => simp
    | folder =>
      simp only [beq_iff_eq]
      constructor
      · intro h
        split at h
        · cases h
          exact ⟨trivial, .inl ⟨‹_›, rfl⟩⟩
        · split at h
          · cases h
            exact ⟨trivial, .inr (.inl ⟨‹_›, rfl⟩)⟩
          · split at h
            · cases h
            · split at h
              · cases h
                exact ⟨trivial, .inr (.inr ⟨‹_›, ‹_›, Nat.not_lt.1 ‹_›, ‹_›, rfl⟩)⟩
              · cases h
      · rintro ⟨-, ⟨rfl, rfl⟩ | ⟨rfl, rfl⟩ | ⟨hhere, hup, hsize, hsome, rfl⟩⟩
        · rfl
        · rfl
        · rw [if_neg hhere, if_neg hup, if_neg (Nat.not_lt.2 hsize), if_pos hsome]

theorem step_isName (hname : IsName name) :
    step t p name = .ok q ↔
      t.get? p = some .folder ∧ (t.get? (p ++ [name])).isSome ∧ q = p ++ [name] := by
  rw [step_eq_ok_iff]
  simp [hname.ne_here, hname.ne_up, hname.short]

theorem follow_append {ns ms : List String} :
    follow t p (ns ++ ms) = .ok r ↔ ∃ q, follow t p ns = .ok q ∧ follow t q ms = .ok r := by
  induction ns generalizing p with
  | nil => simp [follow]
  | cons n ns ih =>
    rw [List.cons_append, follow, follow, except_bind_ok]
    simp only [except_bind_ok, ih]
    constructor
    · rintro ⟨a, ha, q, hq, hr⟩
      exact ⟨q, ⟨a, ha, hq⟩, hr⟩
    · rintro ⟨q, ⟨a, ha, hq⟩, hr⟩
      exact ⟨a, ha, q, hq, hr⟩

theorem follow_singleton : follow t p [name] = .ok q ↔ step t p name = .ok q := by
  rw [follow, except_bind_ok]
  simp [follow]

/-! ## Shortened paths lead to the same place -/

/-- What is kept of a path leads where the elements so far have led. -/
theorem follow_keep {rooted : Bool} {start : Place} {kept : List String}
    (hroot : rooted → start = []) (hdot : "." ∉ kept)
    (hp : follow t start kept.reverse = .ok p) (hname : name ≠ "")
    (hq : step t p name = .ok q) : follow t start (keep rooted kept name).reverse = .ok q := by
  have hcons : follow t start (name :: kept).reverse = .ok q := by
    rw [List.reverse_cons, follow_append]
    exact ⟨p, hp, follow_singleton.2 hq⟩
  obtain ⟨-, ⟨rfl, rfl⟩ | ⟨rfl, rfl⟩ | ⟨hhere, hup, -⟩⟩ := step_eq_ok_iff.1 hq
  · exact hp
  · unfold keep
    rw [if_neg (by decide), if_pos (by decide)]
    split
    · -- Nothing has been kept: the place is still the start.
      cases hp
      split
      · rename_i hr
        rw [hroot hr]
        rfl
      · exact hcons
    · exact hcons
    · -- The last name that was kept is the one that `..` takes back.
      rename_i last rest hlast
      rw [List.reverse_cons, follow_append] at hp
      obtain ⟨a, ha, hstep⟩ := hp
      rw [follow_singleton, step_eq_ok_iff] at hstep
      obtain ⟨-, ⟨rfl, -⟩ | ⟨rfl, -⟩ | ⟨-, -, -, -, rfl⟩⟩ := hstep
      · exact absurd List.mem_cons_self hdot
      · exact absurd rfl hlast
      · rwa [List.dropLast_concat]
  · unfold keep
    rw [if_neg (by simp [hname, hhere]), if_neg (by simpa using hup)]
    exact hcons

theorem follow_foldl_keep {rooted : Bool} {start : Place} {kept elements : List String}
    (hroot : rooted → start = []) (hdot : "." ∉ kept) (hp : follow t start kept.reverse = .ok p)
    (hq : follow t p (elements.filter (· != "")) = .ok q) :
    follow t start (elements.foldl (keep rooted) kept).reverse = .ok q := by
  induction elements generalizing kept p with
  | nil =>
    cases hq
    exact hp
  | cons e es ih =>
    rw [List.foldl_cons]
    by_cases he : e = ""
    · subst he
      exact ih hdot hp hq
    · rw [List.filter_cons_of_pos (by simpa using he), follow, except_bind_ok] at hq
      obtain ⟨a, ha, hq⟩ := hq
      apply ih _ (follow_keep hroot hdot hp he ha) hq
      intro hmem
      rcases mem_keep hmem with hmem | ⟨-, -, hne⟩
      · exact hdot hmem
      · exact hne rfl

/-! ## Where a path leads -/

/-- Where the names of a path start. -/
def startOf (d : Disk) (path : String) : Place := if isRooted path then [] else d.here

/-- The names of a path lead to a place. -/
def Leads (d : Disk) (path : String) (p : Place) : Prop :=
  follow d.tree (d.startOf path) (names path) = .ok p

/-- A path that can be looked up at all. -/
structure Usable (path : String) : Prop where
  ne_empty : path ≠ ""
  noNul : '\x00' ∉ path.toList
  short : path.utf8ByteSize ≤ maxPath

theorem origin_eq_ok_iff : d.origin path = .ok p ↔ Usable path ∧ p = d.startOf path := by
  unfold origin
  by_cases hempty : path = ""
  · simp only [hempty, beq_self_eq_true, if_true, reduceCtorEq, false_iff]
    intro h
    exact h.1.ne_empty rfl
  · by_cases hnul : '\x00' ∈ path.toList
    · simp only [beq_iff_eq, hempty, List.contains_iff_mem, hnul, if_true, if_false, reduceCtorEq,
        false_iff]
      intro h
      exact h.1.noNul hnul
    · by_cases hshort : path.utf8ByteSize ≤ maxPath
      · simp only [beq_iff_eq, hempty, List.contains_iff_mem, hnul, Nat.not_lt.2 hshort,
          if_false, Except.ok.injEq, startOf]
        constructor
        · exact fun h => ⟨⟨hempty, hnul, hshort⟩, h.symm⟩
        · exact fun h => h.2.symm
      · simp only [beq_iff_eq, hempty, List.contains_iff_mem, hnul, Nat.not_le.1 hshort,
          if_true, if_false, reduceCtorEq, false_iff]
        intro h
        exact hshort h.1.short

theorem lookup_eq_ok_iff {e : Entry} :
    d.lookup path = .ok (p, e) ↔ Usable path ∧ d.Leads path p ∧ d.tree.get? p = some e ∧
      (e ≠ .folder → namesFolder path = false) := by
  unfold lookup
  simp only [except_bind_ok, origin_eq_ok_iff]
  constructor
  · rintro ⟨start, ⟨husable, rfl⟩, q, hq, h⟩
    split at h
    · cases h
    · rename_i hfolder
      cases h
      exact ⟨husable, hq, hfolder, fun hne => absurd rfl hne⟩
    · rename_i content hfile
      split at h
      · cases h
      · rename_i hnames
        cases h
        exact ⟨husable, hq, hfile, fun _ => Bool.eq_false_iff.2 hnames⟩
  · rintro ⟨husable, hleads, hget, hnames⟩
    refine ⟨_, ⟨husable, rfl⟩, p, hleads, ?_⟩
    rw [hget]
    cases e with
    | folder => rfl
    | file content =>
      rw [hnames nofun]
      rfl

theorem isFolder_iff : d.isFolder path = true ↔ ∃ p, d.lookup path = .ok (p, .folder) := by
  unfold isFolder
  split
  · rename_i p h
    exact ⟨fun _ => ⟨p, h⟩, fun _ => rfl⟩
  · rename_i h
    simp only [Bool.false_eq_true, false_iff, not_exists]
    exact h

theorem read_eq_ok_iff {content : String} :
    d.read path = .ok content ↔ ∃ p, d.lookup path = .ok (p, .file content) := by
  unfold read
  split <;> simp_all

namespace Leads

theorem unique (hp : d.Leads path p) (hq : d.Leads path q) :
    p = q := Except.ok.inj (hp.symm.trans hq)

theorem clean (hhere : d.tree.get? d.here = some .folder) (h : d.Leads path p) :
    d.Leads (clean path) p := by
  have hstart : d.startOf (Path.clean path) = d.startOf path := by
    unfold startOf
    rw [isRooted_clean]
  have hkept : follow d.tree (d.startOf path) (cleanElements path) = .ok p := by
    apply follow_foldl_keep (p := d.startOf path) _ List.not_mem_nil rfl h
    intro hroot
    exact if_pos hroot
  unfold Leads
  rw [hstart]
  rcases names_clean path with hnames | ⟨hnames, hnil⟩
  · rwa [hnames]
  · rw [hnil] at hkept
    cases hkept
    have hfolder : d.tree.get? (d.startOf path) = some .folder := by
      unfold startOf
      split
      · rfl
      · exact hhere
    rw [hnames, follow_singleton, step_eq_ok_iff]
    exact ⟨hfolder, .inl ⟨rfl, rfl⟩⟩

/-- A path made longer by a name leads to what has this name. -/
theorem slash_iff (hpath : path ≠ "") (h : d.Leads path p) (hname : IsName name) :
    d.Leads (path ++ "/" ++ name) q ↔
      d.tree.get? p = some .folder ∧ (d.tree.get? (p ++ [name])).isSome ∧ q = p ++ [name] := by
  have hstart : d.startOf (path ++ "/" ++ name) = d.startOf path := by
    unfold startOf
    rw [isRooted_slash hpath]
  have hnames : names (path ++ "/" ++ name) = names path ++ [name] := by
    have := names_intercalate (l := [name]) (by simpa using ⟨hname.ne_empty, hname.slashless⟩)
    rw [String.intercalate_singleton] at this
    rw [names_slash, this]
  unfold Leads
  rw [hstart, hnames, follow_append, ← step_isName hname]
  constructor
  · rintro ⟨a, ha, hq⟩
    rw [h.unique ha]
    exact follow_singleton.1 hq
  · intro hq
    exact ⟨p, h, follow_singleton.2 hq⟩

theorem follow_below (ht : t.Sound) {rel : Place} (h : (t.get? (p ++ rel)).isSome) :
    follow t p rel = .ok (p ++ rel) := by
  induction rel generalizing p with
  | nil => rw [List.append_nil, follow]
  | cons name rel ih =>
    have hfolder : t.get? p = some .folder := ht.above (List.cons_ne_nil name rel) h
    have hname : IsName name := ht.isName h name (by simp)
    rw [List.append_cons] at h ⊢
    have hsome : (t.get? (p ++ [name])).isSome := ht.isSome_above (List.prefix_append _ rel) h
    rw [follow, except_bind_ok]
    exact ⟨p ++ [name], (step_isName hname).2 ⟨hfolder, hsome, rfl⟩, ih h⟩

/-- A path made longer by the names of an entry leads to this entry. -/
theorem below (ht : d.tree.Sound) (hpath : path ≠ "") (h : d.Leads path p) {rel : Place}
    (hrel : (d.tree.get? (p ++ rel)).isSome) :
    d.Leads (path ++ "/" ++ "/".intercalate rel) (p ++ rel) := by
  have hstart : d.startOf (path ++ "/" ++ "/".intercalate rel) = d.startOf path := by
    unfold startOf
    rw [isRooted_slash hpath]
  have hnames : names (path ++ "/" ++ "/".intercalate rel) = names path ++ rel := by
    rw [names_slash, names_intercalate]
    intro name hname
    have := ht.isName hrel name (List.mem_append_right p hname)
    exact ⟨this.ne_empty, this.slashless⟩
  unfold Leads
  rw [hstart, hnames, follow_append]
  exact ⟨p, h, follow_below ht hrel⟩

end Leads

end Disk

end Courtesy
