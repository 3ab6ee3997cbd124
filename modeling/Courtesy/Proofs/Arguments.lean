import Courtesy.Proofs.Calls

/-!
# Splitting the arguments of a call

Two readings of the tokens of a call count parentheses: one looks for the parenthesis that closes
the call, the other cuts what stands in front of it at the commas outside of all parentheses. The
first stops where its count is down to that of the call, so the second never counts below zero
(`closing?_pos`).

What cutting yields is said once (`Partitioned`): parts without a comma outside of all parentheses,
with one such comma between each two of them. By induction on it the parts are the segments between
these commas (`Partitioned.mem_iff`).

Main statement: `arguments_split`.
-/

namespace Courtesy.Statement

/-! ## Parentheses and commas -/

/-- How many more parentheses are opened than closed in some tokens. -/
def level : List Token → Int
  | [] => 0
  | t :: ts => depthChange t + level ts

@[simp] theorem level_nil : level [] = 0 := rfl

@[simp] theorem level_cons (t : Token) (ts : List Token) :
    level (t :: ts) = depthChange t + level ts :=
  rfl

@[simp] theorem level_append (ts us : List Token) : level (ts ++ us) = level ts + level us := by
  induction ts with
  | nil => simp
  | cons t ts ih => rw [List.cons_append, level_cons, level_cons, ih, Int.add_assoc]

variable {t : Token} {part tokens : List Token} {parts : List (List Token)}

theorem depthChange_of_ne (ho : t.kind ≠ .openParen) (hc : t.kind ≠ .closeParen) :
    depthChange t = 0 := by
  unfold depthChange
  split
  · contradiction
  · contradiction
  · rfl

theorem depthChange_comma (h : t.kind = .comma) : depthChange t = 0 :=
  depthChange_of_ne (by simp [h]) (by simp [h])

/-- No comma stands outside of all parentheses, of which `depth` are open in front. -/
def Unparted (depth : Int) (part : List Token) : Prop :=
  ∀ init comma rest, part = init ++ comma :: rest → comma.kind = .comma → depth + level init ≠ 0

theorem unparted_nil (depth : Int) : Unparted depth [] := by
  intro init comma rest h
  simp at h

theorem Unparted.cons {depth : Int} (h : Unparted (depth + depthChange t) part)
    (ht : ¬ (t.kind = .comma ∧ depth = 0)) : Unparted depth (t :: part) := by
  intro init comma rest hpart hcomma
  cases init with
  | nil =>
    cases hpart
    intro hdepth
    exact ht ⟨hcomma, by simpa using hdepth⟩
  | cons u init =>
    obtain ⟨rfl, hrest⟩ := List.cons.inj hpart
    rw [level_cons, ← Int.add_assoc]
    exact h init comma rest hrest hcomma

/-! ## What cutting yields -/

/-- The tokens are the parts with one comma between each two of them. It stands outside of all
parentheses, and no part has such a comma. -/
inductive Partitioned : Int → List Token → List (List Token) → Prop
  | last {depth : Int} {part : List Token} (h : Unparted depth part) : Partitioned depth part [part]
  | next {depth : Int} {part : List Token} {comma : Token} {rest : List Token}
      {parts : List (List Token)} (h : Unparted depth part) (hcomma : comma.kind = .comma)
      (hlevel : depth + level part = 0) (hrest : Partitioned 0 rest parts) :
      Partitioned depth (part ++ comma :: rest) (part :: parts)

theorem Partitioned.consSegment {depth : Int}
    (h : Partitioned (depth + depthChange t) tokens parts) (ht : ¬ (t.kind = .comma ∧ depth = 0)) :
    Partitioned depth (t :: tokens) (consSegment t parts) := by
  cases h with
  | last h => exact .last (h.cons ht)
  | next h hcomma hlevel hrest =>
    exact .next (h.cons ht) hcomma (by rw [level_cons, ← Int.add_assoc, hlevel]) hrest

theorem partitioned_segments (depth : Int) (tokens : List Token) :
    Partitioned depth tokens (segments depth tokens) := by
  induction tokens generalizing depth with
  | nil => exact .last (unparted_nil depth)
  | cons t ts ih =>
    rw [segments]
    split
    · rename_i h
      obtain ⟨hcomma, rfl⟩ := h
      exact .next (unparted_nil 0) hcomma rfl (ih 0)
    · rename_i h
      exact (ih _).consSegment h

theorem Partitioned.unparted (h : Partitioned 0 tokens parts) :
    ∀ part ∈ parts, Unparted 0 part := by
  generalize hdepth : (0 : Int) = depth at h
  induction h with
  | last h => subst hdepth; exact List.forall_mem_singleton.2 h
  | next h _ _ _ ih => subst hdepth; exact List.forall_mem_cons.2 ⟨h, ih rfl⟩

/-! ## Segments -/

/-- A part that no comma outside of all parentheses parts, between two such commas or the ends of
the tokens. -/
structure Delimited (front part back : List Token) : Prop where
  starts : ∀ init comma, front = init ++ [comma] → comma.kind = .comma ∧ level init = 0
  ends : ∀ comma rest, back = comma :: rest → comma.kind = .comma ∧ level (front ++ part) = 0
  whole : Unparted (level front) part

/-- A part of the tokens is a segment between commas outside of all parentheses. -/
def IsSegment (tokens part : List Token) : Prop :=
  ∃ front back, tokens = front ++ (part ++ back) ∧ Delimited front part back

/-- Where a segment starts at the first token, it reaches up to the first comma outside of all
parentheses. -/
theorem Delimited.eq_of_nil {back first tail : List Token} (h : Delimited [] part back)
    (hfirst : Unparted 0 first)
    (htail : ∀ c rest, tail = c :: rest → c.kind = .comma ∧ level first = 0)
    (hsplit : first ++ tail = part ++ back) : part = first := by
  rcases List.append_eq_append_iff.1 hsplit with ⟨mid, rfl, rfl⟩ | ⟨mid, rfl, rfl⟩
  · cases mid with
    | nil => exact List.append_nil first
    | cons c mid =>
      obtain ⟨hc, hlevel⟩ := htail c _ rfl
      exact absurd (by simpa using hlevel) (h.whole first c mid rfl hc)
  · cases mid with
    | nil => exact (List.append_nil part).symm
    | cons c mid =>
      obtain ⟨hc, hlevel⟩ := h.ends c _ rfl
      exact absurd (by simpa using hlevel) (hfirst part c mid rfl hc)

section

variable {first : List Token} {c : Token} (hlevel : level first = 0) (hc : c.kind = .comma)

include hlevel hc

/-- Behind a comma outside of all parentheses all is as it is without what stands in front. -/
theorem delimited_comma_iff {front back : List Token} :
    Delimited (first ++ c :: front) part back ↔ Delimited front part back := by
  have hshift (ts : List Token) : level (first ++ c :: ts) = level ts := by
    simp [hlevel, depthChange_comma hc]
  have happend : first ++ c :: front ++ part = first ++ c :: (front ++ part) := by simp
  constructor
  · rintro ⟨hstarts, hends, hwhole⟩
    refine ⟨?_, ?_, by rwa [hshift] at hwhole⟩
    · rintro init comma rfl
      obtain ⟨hcomma, hinit⟩ := hstarts (first ++ c :: init) comma (by simp)
      exact ⟨hcomma, by rwa [hshift] at hinit⟩
    · intro comma rest hback
      obtain ⟨hcomma, hpart⟩ := hends comma rest hback
      exact ⟨hcomma, by rwa [happend, hshift] at hpart⟩
  · rintro ⟨hstarts, hends, hwhole⟩
    refine ⟨?_, ?_, by rwa [hshift]⟩
    · intro init comma hfront
      rcases List.eq_nil_or_concat front with rfl | ⟨init', comma', rfl⟩
      · obtain ⟨rfl, rfl⟩ := List.append_singleton_inj.1 hfront
        exact ⟨hc, hlevel⟩
      · rw [List.concat_eq_append] at hfront hstarts
        have hfront' : (first ++ c :: init') ++ [comma'] = init ++ [comma] := by simpa using hfront
        obtain ⟨rfl, rfl⟩ := List.append_singleton_inj.1 hfront'
        rw [hshift]
        exact hstarts init' comma' rfl
    · intro comma rest hback
      rw [happend, hshift]
      exact hends comma rest hback

theorem isSegment_comma_iff (hfirst : Unparted 0 first) {rest : List Token} :
    IsSegment (first ++ c :: rest) part ↔ part = first ∨ IsSegment rest part := by
  have htail : ∀ u us, c :: rest = u :: us → u.kind = .comma ∧ level first = 0 := by
    intro u us h
    cases h
    exact ⟨hc, hlevel⟩
  constructor
  · rintro ⟨front, back, hsplit, h⟩
    rcases List.eq_nil_or_concat front with rfl | ⟨init, comma, rfl⟩
    · exact .inl (h.eq_of_nil hfirst htail hsplit)
    · -- the comma in front of the segment is not part of the first part, so it is not in front of
      -- `c`
      rw [List.concat_eq_append] at hsplit h
      obtain ⟨hcomma, hinit⟩ := h.starts init comma rfl
      obtain ⟨front, hfront⟩ : ∃ front, init ++ [comma] = first ++ c :: front := by
        rw [List.append_assoc, List.singleton_append] at hsplit
        rcases List.append_eq_append_iff.1 hsplit with ⟨mid, rfl, hmid⟩ | ⟨mid, rfl, hmid⟩
        · cases mid with
          | nil => cases hmid; exact ⟨[], by simp⟩
          | cons u mid => cases hmid; exact ⟨mid ++ [comma], by simp⟩
        · cases mid with
          | nil => cases hmid; exact ⟨[], by simp⟩
          | cons u mid =>
            obtain ⟨rfl, -⟩ := List.cons.inj hmid
            exact absurd (by simpa using hinit) (hfirst init comma mid rfl hcomma)
      rw [hfront] at hsplit h
      refine .inr ⟨front, back, ?_, (delimited_comma_iff hlevel hc).1 h⟩
      simpa using hsplit
  · rintro (rfl | ⟨front, back, rfl, h⟩)
    · refine ⟨[], c :: rest, rfl, ?_, ?_, hfirst⟩
      · intro init comma hnil
        simp at hnil
      · exact htail
    · exact ⟨first ++ c :: front, back, by simp, (delimited_comma_iff hlevel hc).2 h⟩

end

theorem isSegment_iff_of_unparted (h : Unparted 0 tokens) :
    IsSegment tokens part ↔ part = tokens := by
  constructor
  · rintro ⟨front, back, rfl, hpart⟩
    rcases List.eq_nil_or_concat front with rfl | ⟨init, comma, rfl⟩
    · have hsplit : part ++ back ++ [] = part ++ back := List.append_nil _
      exact hpart.eq_of_nil h (by simp) hsplit
    · rw [List.concat_eq_append] at h hpart
      obtain ⟨hcomma, hinit⟩ := hpart.starts init comma rfl
      exact absurd (by simpa using hinit) (h init comma (part ++ back) (by simp) hcomma)
  · rintro rfl
    exact ⟨[], [], by simp, by simp, by simp, h⟩

/-- The parts are the segments of the tokens. -/
theorem Partitioned.mem_iff (h : Partitioned 0 tokens parts) :
    part ∈ parts ↔ IsSegment tokens part := by
  generalize hdepth : (0 : Int) = depth at h
  induction h with
  | last h =>
    subst hdepth
    rw [List.mem_singleton, isSegment_iff_of_unparted h]
  | next h hcomma hlevel _ ih =>
    subst hdepth
    rw [List.mem_cons, ih rfl, isSegment_comma_iff (by simpa using hlevel) hcomma h]

/-! ## The two counts -/

/-- Up to the parenthesis that closes, both readings count alike. -/
theorem closing?_succ {depth : Nat} (hdepth : 0 < depth) {ts : List Token} {c : Nat}
    (h : closing? depth (t :: ts) = some (c + 1)) :
    ∃ next : Nat, (next : Int) = depth + depthChange t ∧ 0 < next ∧ closing? next ts = some c := by
  have hrest : ∀ {next : Nat}, (closing? next ts).map (· + 1) = some (c + 1) →
      closing? next ts = some c := by
    intro next hnext
    obtain ⟨c', hc', hsucc⟩ := Option.map_eq_some_iff.1 hnext
    cases hsucc
    exact hc'
  rw [closing?] at h
  split at h
  · rename_i hkind
    exact ⟨depth + 1, by rw [depthChange, hkind]; rfl, Nat.succ_pos depth, hrest h⟩
  · rename_i hkind
    split at h
    · cases h
    · refine ⟨depth - 1, ?_, by omega, hrest h⟩
      have hchange : depthChange t = -1 := by rw [depthChange, hkind]
      omega
  · rename_i ho hc
    exact ⟨depth, by rw [depthChange_of_ne ho hc, Int.add_zero], hdepth, hrest h⟩

/-- In front of the parenthesis that closes, some parenthesis is always open. -/
theorem closing?_pos {depth : Nat} (hdepth : 0 < depth) {c : Nat}
    (h : closing? depth tokens = some c) {front : List Token} (hfront : front <+: tokens.take c) :
    0 < depth + level front := by
  induction tokens generalizing depth c front with
  | nil => cases h
  | cons t ts ih =>
    cases front with
    | nil =>
      rw [level_nil]
      omega
    | cons u front =>
      cases c with
      | zero => simp at hfront
      | succ c =>
        obtain ⟨rfl, hrest⟩ := List.cons_prefix_cons.1 hfront
        obtain ⟨next, hnext, hpos, hclosing⟩ := closing?_succ hdepth h
        rw [level_cons, ← Int.add_assoc, ← hnext]
        exact ih hpos hclosing hrest

/-- Between the parentheses of a call no more are closed than opened, from the first token on. -/
theorem callBody_level {name : String} {body : List Token} (h : callBody name tokens = .ok body)
    {front : List Token} (hfront : front <+: body) : 0 ≤ level front := by
  unfold callBody at h
  split at h
  · cases h
  · rename_i t ts
    split at h
    · cases h
    · rename_i hopen
      split at h
      · cases h
      · rename_i c hc
        split at h
        · cases h
          have hkind : t.kind = .openParen := by simpa using hopen
          rw [closing?, hkind] at hc
          obtain ⟨c, hclosing, rfl⟩ := Option.map_eq_some_iff.1 hc
          have := closing?_pos Nat.one_pos hclosing hfront
          omega
        · cases h

/-! ## Arguments -/

theorem isSome_arguments?_iff (tokens : List Token) :
    (arguments? tokens).isSome = true ↔
      tokens = [] ∨ ∀ part, IsSegment tokens part → part ≠ [] := by
  have hempty : (∀ part, IsSegment tokens part → part ≠ []) ↔ [] ∉ segments 0 tokens := by
    rw [(partitioned_segments 0 tokens).mem_iff]
    constructor
    · intro h hmem
      exact h [] hmem rfl
    · rintro h _ hmem rfl
      exact h hmem
  rw [hempty, Option.isSome_iff_exists]
  simp only [arguments?_eq_some_iff]
  by_cases hnil : tokens = []
  · simp [hnil]
  · simp [hnil]

/-- Let a call be closed by its last token. Then cutting what stands between the parentheses never
counts below zero; it yields arguments exactly if there is nothing between the parentheses, or some
token in each segment between two commas outside of all further parentheses; and the arguments, with
single commas between them, are what was cut, and none has such a comma. -/
theorem arguments_split {name : String} {tokens body : List Token}
    (h : callBody name tokens = .ok body) :
    (∃ opening closing, tokens = opening :: body ++ [closing] ∧ opening.kind = .openParen ∧
      closing.kind = .closeParen) ∧
    (∀ front, front <+: body → 0 ≤ level front) ∧
    ((arguments? body).isSome = true ↔ body = [] ∨ ∀ part, IsSegment body part → part ≠ []) ∧
    ∀ args, arguments? body = some args →
      ((body = [] ∧ args = []) ∨ Separated body args) ∧ ∀ arg ∈ args, Unparted 0 arg := by
  refine ⟨callBody_ok h, fun front hfront => callBody_level h hfront,
    isSome_arguments?_iff body, ?_⟩
  intro args hargs
  refine ⟨(arguments?_ok hargs).2, ?_⟩
  rcases arguments?_eq_some_iff.1 hargs with ⟨-, rfl⟩ | ⟨-, -, rfl⟩
  · simp
  · exact (partitioned_segments 0 body).unparted

/-- The tokens behind the name in the call `f(x, (y, z))`. -/
def nestedArguments : List Token :=
  [⟨"(", .openParen, 2⟩, ⟨"x", .identifier, 3⟩, ⟨",", .comma, 4⟩, ⟨"(", .openParen, 6⟩,
    ⟨"y", .identifier, 7⟩, ⟨",", .comma, 8⟩, ⟨"z", .identifier, 10⟩, ⟨")", .closeParen, 11⟩,
    ⟨")", .closeParen, 12⟩]

/-- The comma inside of the inner parentheses parts nothing. -/
theorem arguments_split_nested :
    callBody "f" nestedArguments = .ok nestedArguments.tail.dropLast ∧
    (∀ part, IsSegment nestedArguments.tail.dropLast part → part ≠ []) ∧
    ∃ args, arguments? nestedArguments.tail.dropLast = some args ∧
      args.map Token.texts = [["x"], ["(", "y", ",", "z", ")"]] ∧
      Separated nestedArguments.tail.dropLast args ∧ ∀ arg ∈ args, Unparted 0 arg := by
  have hbody : callBody "f" nestedArguments = .ok nestedArguments.tail.dropLast := rfl
  obtain ⟨-, -, hsome, hargs⟩ := arguments_split hbody
  obtain ⟨hjoined, hunparted⟩ := hargs _ rfl
  exact ⟨hbody, (hsome.1 rfl).resolve_left (by decide), _, rfl, rfl,
    hjoined.resolve_left (by decide), hunparted⟩

end Courtesy.Statement
