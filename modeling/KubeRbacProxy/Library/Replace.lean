import Mathlib.Data.List.Infix
import Mathlib.Data.List.Perm.Basic

/-! Replacing placeholders in a text.  One replacement after another scans the text that the earlier
ones put in; a simultaneous substitution scans the template once.  For placeholders in double
brackets the two agree as long as no replacement finds a placeholder that the template does not
have at that place. -/

namespace Library

variable {α : Type} [DecidableEq α]

/-- `replaceAll` after `skip` more characters of the occurrence replaced last. -/
def replaceFrom (pattern value : List α) : Nat → List α → List α
  | _, [] => []
  | skip + 1, _ :: rest => replaceFrom pattern value skip rest
  | 0, c :: rest =>
    if pattern.isPrefixOf (c :: rest) then
      value ++ replaceFrom pattern value (pattern.length - 1) rest
    else c :: replaceFrom pattern value 0 rest

/-- Every occurrence of `pattern` in `t`, from the left, replaced by `value`. -/
def replaceAll (pattern value t : List α) : List α := replaceFrom pattern value 0 t

def replaceEach (rules : List (List α × List α)) (t : List α) : List α :=
  rules.foldl (fun t rule => replaceAll rule.1 rule.2 t) t

/-- A piece of a scanned template: a character, or a place that one of the patterns takes. -/
inductive Item (α : Type) where
  | lit (c : α)
  | hole (pattern : List α)
  deriving DecidableEq

def scanFrom (patterns : List (List α)) : Nat → List α → List (Item α)
  | _, [] => []
  | skip + 1, _ :: rest => scanFrom patterns skip rest
  | 0, c :: rest =>
    match patterns.find? (·.isPrefixOf (c :: rest)) with
    | some pattern => .hole pattern :: scanFrom patterns (pattern.length - 1) rest
    | none => .lit c :: scanFrom patterns 0 rest

def scan (patterns : List (List α)) (t : List α) : List (Item α) := scanFrom patterns 0 t

def Item.text : Item α → List α
  | .lit c => [c]
  | .hole pattern => pattern

def itemsText (items : List (Item α)) : List α := items.flatMap Item.text

def Item.fill (rules : List (List α × List α)) : Item α → List (Item α)
  | .lit c => [.lit c]
  | .hole pattern =>
    match rules.lookup pattern with
    | some value => value.map .lit
    | none => [.hole pattern]

def fillAll (rules : List (List α × List α)) (items : List (Item α)) : List (Item α) :=
  items.flatMap (Item.fill rules)

/-- The template with all its placeholders replaced at once. -/
def substitute (rules : List (List α × List α)) (t : List α) : List α :=
  itemsText (fillAll rules (scan (rules.map Prod.fst) t))

omit [DecidableEq α] in
@[simp] theorem itemsText_nil : itemsText ([] : List (Item α)) = [] := rfl

omit [DecidableEq α] in
@[simp] theorem itemsText_cons (item : Item α) (items : List (Item α)) :
    itemsText (item :: items) = item.text ++ itemsText items := rfl

omit [DecidableEq α] in
theorem itemsText_append (items more : List (Item α)) :
    itemsText (items ++ more) = itemsText items ++ itemsText more := List.flatMap_append

omit [DecidableEq α] in
theorem itemsText_lits (t : List α) : itemsText (t.map .lit) = t := by
  induction t with
  | nil => rfl
  | cons c t ih => simp [Item.text, ih]

@[simp] theorem fillAll_nil (rules : List (List α × List α)) : fillAll rules [] = [] := rfl

@[simp] theorem fillAll_cons (rules : List (List α × List α)) (item : Item α)
    (items : List (Item α)) :
    fillAll rules (item :: items) = item.fill rules ++ fillAll rules items := rfl

theorem fill_single (rule : List α × List α) (q : List α) :
    (Item.hole q).fill [rule] = if q = rule.1 then rule.2.map .lit else [.hole q] := by
  obtain ⟨p, value⟩ := rule
  by_cases h : q = p
  · simp [Item.fill, h]
  · simp [Item.fill, h, List.lookup_cons, show (q == p) = false by simpa using h]

theorem fillAll_no_rules (items : List (Item α)) : fillAll [] items = items := by
  induction items with
  | nil => rfl
  | cons item items ih => cases item <;> simp [Item.fill, ih]

theorem fillAll_append (rules : List (List α × List α)) (items more : List (Item α)) :
    fillAll rules (items ++ more) = fillAll rules items ++ fillAll rules more :=
  List.flatMap_append

theorem fillAll_lits (rules : List (List α × List α)) (t : List α) :
    fillAll rules (t.map .lit) = t.map .lit := by
  induction t with
  | nil => rfl
  | cons c t ih => simp [Item.fill, ih]

theorem replaceFrom_drop (pattern value : List α) (skip : Nat) (t : List α) :
    replaceFrom pattern value skip t = replaceFrom pattern value 0 (t.drop skip) := by
  induction t generalizing skip with
  | nil => cases skip <;> simp [replaceFrom]
  | cons c t ih =>
    cases skip with
    | zero => rfl
    | succ skip => simpa [replaceFrom] using ih skip

theorem scanFrom_drop (patterns : List (List α)) (skip : Nat) (t : List α) :
    scanFrom patterns skip t = scanFrom patterns 0 (t.drop skip) := by
  induction t generalizing skip with
  | nil => cases skip <;> simp [scanFrom]
  | cons c t ih =>
    cases skip with
    | zero => rfl
    | succ skip => simpa [scanFrom] using ih skip

theorem replaceAll_prefix {pattern : List α} (hne : pattern ≠ []) (value rest : List α) :
    replaceAll pattern value (pattern ++ rest) = value ++ replaceAll pattern value rest := by
  obtain ⟨c, pattern, rfl⟩ := List.exists_cons_of_ne_nil hne
  have hfound : (c :: pattern).isPrefixOf (c :: (pattern ++ rest)) = true :=
    List.isPrefixOf_iff_prefix.mpr (List.prefix_append _ _)
  simp only [replaceAll, List.cons_append, replaceFrom, hfound, if_true, List.length_cons,
    Nat.add_sub_cancel]
  rw [replaceFrom_drop, List.drop_left]

theorem replaceAll_skip {pattern value rest : List α} {c : α} (h : ¬pattern <+: c :: rest) :
    replaceAll pattern value (c :: rest) = c :: replaceAll pattern value rest := by
  have hnone : pattern.isPrefixOf (c :: rest) = false :=
    Bool.eq_false_iff.mpr fun hfound => h (List.isPrefixOf_iff_prefix.mp hfound)
  simp [replaceAll, replaceFrom, hnone]

theorem replaceAll_keep {pattern value t rest : List α}
    (h : ∀ k < t.length, ¬pattern <+: t.drop k ++ rest) :
    replaceAll pattern value (t ++ rest) = t ++ replaceAll pattern value rest := by
  induction t with
  | nil => rfl
  | cons c t ih =>
    have hskip : ¬pattern <+: c :: (t ++ rest) := h 0 (by simp)
    rw [List.cons_append, replaceAll_skip hskip, ih fun k hk => h (k + 1) (by simpa using hk),
      List.cons_append]

/-! ### Placeholders in double brackets -/

/-- `pattern` is a body between two opening and two closing brackets, and its body has no bracket
in it. -/
def Bracketed (opening closing : α) (pattern : List α) : Prop :=
  ∃ body, pattern = opening :: opening :: (body ++ [closing, closing]) ∧ body ≠ [] ∧
    opening ∉ body ∧ closing ∉ body

section Bracketed

variable {opening closing : α}

omit [DecidableEq α] in
theorem Bracketed.ne_nil {p : List α} (hp : Bracketed opening closing p) : p ≠ [] := by
  obtain ⟨body, rfl, -⟩ := hp
  exact List.cons_ne_nil _ _

omit [DecidableEq α] in
theorem Bracketed.last {p : List α} (hp : Bracketed opening closing p) :
    ∃ front, p = front ++ [closing] := by
  obtain ⟨body, rfl, -⟩ := hp
  exact ⟨opening :: opening :: (body ++ [closing]), by simp⟩

theorem Bracketed.unique {p q t : List α} (hp : Bracketed opening closing p)
    (hq : Bracketed opening closing q) (hpt : p <+: t) (hqt : q <+: t) : p = q := by
  have body_eq : ∀ {b r : List α}, closing ∉ b → b ++ [closing, closing] <+: r →
      r.takeWhile (· ≠ closing) = b := by
    rintro b _ hb ⟨rest, rfl⟩
    rw [List.append_assoc, List.takeWhile_append_of_pos (by simpa using fun a ha =>
      (ne_of_mem_of_not_mem ha hb : a ≠ closing))]
    simp
  obtain ⟨b, rfl, -, -, hb⟩ := hp
  obtain ⟨d, rfl, -, -, hd⟩ := hq
  match t, hpt, hqt with
  | x :: y :: t, hpt, hqt =>
    rw [List.cons_prefix_cons, List.cons_prefix_cons] at hpt hqt
    rw [← body_eq hb hpt.2.2, ← body_eq hd hqt.2.2]

omit [DecidableEq α] in
theorem Bracketed.inside {p : List α} (hp : Bracketed opening closing p) (hne : opening ≠ closing)
    {k : Nat} (hpos : 0 < k) (hlt : k < p.length) (rest : List α) :
    ¬[opening, opening] <+: p.drop k ++ rest := by
  obtain ⟨body, rfl, hbody, hopen, -⟩ := hp
  obtain ⟨b, body, rfl⟩ := List.exists_cons_of_ne_nil hbody
  rw [List.mem_cons, not_or] at hopen
  rintro ⟨more, hmore⟩
  obtain _ | _ | k := k
  · omega
  · simp [hopen.1] at hmore
  · simp only [List.drop_succ_cons, List.length_cons] at hmore hlt
    have hmem : opening ∈ b :: body ++ [closing, closing] := by
      apply List.drop_subset k
      obtain ⟨x, xs, hx⟩ : ∃ x xs, (b :: body ++ [closing, closing]).drop k = x :: xs := by
        refine List.exists_cons_of_ne_nil fun hnil => ?_
        have := List.drop_eq_nil_iff.mp hnil
        simp at this hlt
        omega
      rw [hx] at hmore ⊢
      have hhead : opening = x := (List.cons.inj hmore).1
      exact hhead ▸ List.mem_cons_self
    simp [hopen.1, hopen.2, hne] at hmem

omit [DecidableEq α] in
theorem Bracketed.opens {p t : List α} (hp : Bracketed opening closing p) (h : p <+: t) :
    [opening, opening] <+: t := by
  obtain ⟨body, rfl, -⟩ := hp
  exact (List.prefix_append [opening, opening] (body ++ [closing, closing])).trans h

omit [DecidableEq α] in
theorem Bracketed.apart {p q : List α} (hp : Bracketed opening closing p)
    (hq : Bracketed opening closing q) (hne : opening ≠ closing) {k : Nat} (hpos : 0 < k)
    (hlt : k < q.length) (rest : List α) : ¬p <+: q.drop k ++ rest :=
  fun h => hq.inside hne hpos hlt rest (hp.opens h)

omit [DecidableEq α] in
theorem Bracketed.before {p q run rest : List α} (hp : Bracketed opening closing p)
    (hq : Bracketed opening closing q) (hne : opening ≠ closing) (hrun : run ≠ [])
    (h : p <+: run ++ (q ++ rest)) : p <+: run := by
  by_cases hle : p.length ≤ run.length
  · exact List.prefix_of_prefix_length_le h (List.prefix_append _ _) hle
  exfalso
  obtain ⟨tail, rfl⟩ := List.prefix_of_prefix_length_le (List.prefix_append run _) h (by omega)
  rw [List.prefix_append_right_inj] at h
  have hpos : 0 < run.length := List.length_pos_iff.mpr hrun
  have hlt : run.length < (run ++ tail).length := by omega
  have hinside := hp.inside hne hpos hlt []
  rw [List.drop_left, List.append_nil] at hinside
  obtain ⟨front, hlast⟩ := hp.last
  obtain ⟨body, rfl, -⟩ := hq
  match tail, h, hinside, hlast with
  | [x], h, _, hlast =>
    rw [List.cons_append, List.cons_prefix_cons] at h
    have := (List.append_inj' hlast rfl).2
    rw [List.cons.injEq] at this
    exact hne (h.1.symm.trans this.1)
  | x :: y :: tail, h, hinside, _ =>
    rw [List.cons_append, List.cons_append, List.cons_prefix_cons, List.cons_prefix_cons] at h
    obtain ⟨hx, hy, -⟩ := h
    exact hinside ⟨tail, by rw [hx, hy]; rfl⟩
  | [], _, _, _ => simp at hlt

omit [DecidableEq α] in
theorem Bracketed.before_insert {p v run rest : List α} (hp : Bracketed opening closing p)
    (hclose : closing ∉ v) (hnotin : ¬v <:+: p) (h : p <+: run ++ (v ++ rest)) : p <+: run := by
  by_cases hle : p.length ≤ run.length
  · exact List.prefix_of_prefix_length_le h (List.prefix_append _ _) hle
  exfalso
  obtain ⟨tail, rfl⟩ := List.prefix_of_prefix_length_le (List.prefix_append run _) h (by omega)
  rw [List.prefix_append_right_inj] at h
  obtain ⟨front, hlast⟩ := hp.last
  have htail : tail ≠ [] := by
    rintro rfl
    simp at hle
  by_cases hv : tail.length ≤ v.length
  · have hsub := List.prefix_of_prefix_length_le h (List.prefix_append v rest) hv
    have hmem : closing ∈ tail := by
      have hget := congrArg List.getLast? hlast
      rw [List.getLast?_append_of_ne_nil _ htail, List.getLast?_append] at hget
      exact List.mem_of_getLast? (by simpa using hget)
    exact hclose (hsub.subset hmem)
  · have hsub := List.prefix_of_prefix_length_le (List.prefix_append v rest) h (by omega)
    exact hnotin (hsub.isInfix.trans (List.suffix_append run tail).isInfix)

/-! ### Scanned templates -/

omit [DecidableEq α] in
theorem Bracketed.replaceAll_skip_hole {p q value rest : List α} [DecidableEq α]
    (hp : Bracketed opening closing p) (hq : Bracketed opening closing q) (hne : opening ≠ closing)
    (hpq : p ≠ q) : replaceAll p value (q ++ rest) = q ++ replaceAll p value rest := by
  refine replaceAll_keep fun k hk h => ?_
  by_cases hzero : k = 0
  · subst hzero
    exact hpq (hp.unique hq h (by simp))
  · exact hp.apart hq hne (by omega) hk rest h

/-- `pattern` starts at no character of the pieces. -/
def Own (pattern : List α) : List (Item α) → Prop
  | [] => True
  | .lit c :: rest => ¬pattern <+: c :: itemsText rest ∧ Own pattern rest
  | .hole _ :: rest => Own pattern rest

/-- Where `p` occurs only at its holes, replacing its occurrences fills its holes. -/
theorem replaceAll_itemsText {p : List α} (hp : Bracketed opening closing p)
    (hne : opening ≠ closing) (value : List α) {items : List (Item α)}
    (hitems : ∀ q, .hole q ∈ items → Bracketed opening closing q) (hown : Own p items) :
    replaceAll p value (itemsText items) = itemsText (fillAll [(p, value)] items) := by
  induction items with
  | nil => rfl
  | cons item items ih =>
    have hrest : ∀ q, .hole q ∈ items → Bracketed opening closing q := fun q hq =>
      hitems q (List.mem_cons_of_mem _ hq)
    rw [itemsText_cons, fillAll_cons, itemsText_append]
    cases item with
    | lit c =>
      rw [← ih hrest hown.2]
      exact replaceAll_skip hown.1
    | hole q =>
      rw [← ih hrest hown]
      by_cases hpq : q = p
      · subst hpq
        simp [fill_single, Item.text, itemsText_lits, replaceAll_prefix hp.ne_nil]
      · simp [fill_single, Item.text, hpq,
          hp.replaceAll_skip_hole (hitems q List.mem_cons_self) hne (Ne.symm hpq)]

theorem fillAll_fillAll (done more : List (List α × List α)) (items : List (Item α)) :
    fillAll more (fillAll done items) = fillAll (done ++ more) items := by
  induction items with
  | nil => rfl
  | cons item items ih =>
    rw [fillAll_cons, fillAll_append, fillAll_cons, ih]
    congr 1
    cases item with
    | lit c => rfl
    | hole q =>
      simp only [Item.fill, List.lookup_append]
      cases List.lookup q done with
      | some value => exact fillAll_lits more value
      | none => simp [Item.fill]

/-- Each replacement finds its placeholder only where the template has it, in the template with the
earlier placeholders filled in. -/
def Settled : List (List α × List α) → List (Item α) → Prop
  | [], _ => True
  | rule :: rules, items => Own rule.1 items ∧ Settled rules (fillAll [rule] items)

omit [DecidableEq α] in
theorem hole_mem_fillAll [DecidableEq α] {rules : List (List α × List α)} {items : List (Item α)}
    {q : List α} (h : .hole q ∈ fillAll rules items) : .hole q ∈ items := by
  obtain ⟨item, hitem, hq⟩ := List.mem_flatMap.mp h
  cases item with
  | lit c => simp [Item.fill] at hq
  | hole p =>
    simp only [Item.fill] at hq
    cases hlookup : List.lookup p rules with
    | some value => simp [hlookup] at hq
    | none =>
      rw [hlookup, List.mem_singleton] at hq
      exact hq ▸ hitem

theorem replaceEach_of_settled (hne : opening ≠ closing) {rules : List (List α × List α)}
    (hrules : ∀ rule ∈ rules, Bracketed opening closing rule.1) {items : List (Item α)}
    (hitems : ∀ q, .hole q ∈ items → Bracketed opening closing q) (h : Settled rules items) :
    replaceEach rules (itemsText items) = itemsText (fillAll rules items) := by
  induction rules generalizing items with
  | nil =>
    rw [fillAll_no_rules]
    rfl
  | cons rule rules ih =>
    have hrule := hrules rule List.mem_cons_self
    have hstep := replaceAll_itemsText hrule hne rule.2 hitems h.1
    calc replaceEach (rule :: rules) (itemsText items)
        = replaceEach rules (replaceAll rule.1 rule.2 (itemsText items)) := rfl
      _ = replaceEach rules (itemsText (fillAll [rule] items)) := by rw [hstep]
      _ = itemsText (fillAll rules (fillAll [rule] items)) :=
        ih (fun r hr => hrules r (List.mem_cons_of_mem _ hr))
          (fun q hq => hitems q (hole_mem_fillAll hq)) h.2
      _ = itemsText (fillAll (rule :: rules) items) := by rw [fillAll_fillAll]; rfl

/-! ### What a scan finds -/

theorem scan_hole {patterns : List (List α)}
    (hpatterns : ∀ p ∈ patterns, Bracketed opening closing p) {p : List α} (hp : p ∈ patterns)
    (rest : List α) : scan patterns (p ++ rest) = .hole p :: scan patterns rest := by
  obtain ⟨c, tail, rfl⟩ := List.exists_cons_of_ne_nil (hpatterns p hp).ne_nil
  have hfind : patterns.find? (·.isPrefixOf (c :: (tail ++ rest))) = some (c :: tail) := by
    cases hfound : patterns.find? (·.isPrefixOf (c :: (tail ++ rest))) with
    | none =>
      have := List.find?_eq_none.mp hfound _ hp
      simp at this
    | some q =>
      have hq : q <+: c :: (tail ++ rest) :=
        List.isPrefixOf_iff_prefix.mp (by simpa using List.find?_some hfound)
      rw [(hpatterns q (List.mem_of_find?_eq_some hfound)).unique (hpatterns _ hp) hq
        (List.prefix_append (c :: tail) rest)]
  simp only [scan, List.cons_append, scanFrom, hfind, List.length_cons, Nat.add_sub_cancel]
  rw [scanFrom_drop, List.drop_left]

theorem scan_skip {patterns : List (List α)} {c : α} {rest : List α}
    (h : ∀ p ∈ patterns, ¬p <+: c :: rest) :
    scan patterns (c :: rest) = .lit c :: scan patterns rest := by
  have hfind : patterns.find? (·.isPrefixOf (c :: rest)) = none :=
    List.find?_eq_none.mpr fun p hp hfound => h p hp (List.isPrefixOf_iff_prefix.mp hfound)
  simp only [scan, scanFrom, hfind]

theorem scan_induction {patterns : List (List α)}
    (hpatterns : ∀ p ∈ patterns, Bracketed opening closing p)
    {motive : List α → List (Item α) → Prop} (nil : motive [] [])
    (found : ∀ p ∈ patterns, ∀ rest, motive rest (scan patterns rest) →
      motive (p ++ rest) (.hole p :: scan patterns rest))
    (skip : ∀ c rest, (∀ p ∈ patterns, ¬p <+: c :: rest) → motive rest (scan patterns rest) →
      motive (c :: rest) (.lit c :: scan patterns rest)) (t : List α) :
    motive t (scan patterns t) := by
  induction hlen : t.length using Nat.strong_induction_on generalizing t with
  | _ n ih =>
    subst hlen
    cases t with
    | nil => exact nil
    | cons c t =>
      by_cases hany : ∃ p ∈ patterns, p <+: c :: t
      · obtain ⟨p, hp, rest, hrest⟩ := hany
        have hpos := List.length_pos_iff.mpr (hpatterns p hp).ne_nil
        rw [← hrest, scan_hole hpatterns hp]
        refine found p hp rest (ih rest.length ?_ rest rfl)
        rw [← hrest, List.length_append]
        omega
      · have hnone : ∀ p ∈ patterns, ¬p <+: c :: t := fun p hp h => hany ⟨p, hp, h⟩
        rw [scan_skip hnone]
        exact skip c t hnone (ih t.length (by simp) t rfl)

theorem itemsText_scan {patterns : List (List α)}
    (hpatterns : ∀ p ∈ patterns, Bracketed opening closing p) (t : List α) :
    itemsText (scan patterns t) = t := by
  induction t using scan_induction hpatterns with
  | nil => rfl
  | found p hp rest ih => rw [itemsText_cons, ih, Item.text]
  | skip c rest hnone ih => rw [itemsText_cons, ih, Item.text, List.singleton_append]

theorem hole_mem_scan_iff {patterns : List (List α)} (hne : opening ≠ closing)
    (hpatterns : ∀ p ∈ patterns, Bracketed opening closing p) (p t : List α) :
    .hole p ∈ scan patterns t ↔ p ∈ patterns ∧ p <:+: t := by
  induction t using scan_induction hpatterns with
  | nil =>
    refine ⟨fun h => absurd h List.not_mem_nil, fun ⟨hp, h⟩ => ?_⟩
    exact absurd (List.infix_nil.mp h) (hpatterns p hp).ne_nil
  | found q hq rest ih =>
    rw [List.mem_cons, ih]
    constructor
    · rintro (h | ⟨hp, h⟩)
      · obtain rfl := Item.hole.inj h
        exact ⟨hq, (List.prefix_append _ _).isInfix⟩
      · exact ⟨hp, h.trans (List.suffix_append q rest).isInfix⟩
    · rintro ⟨hp, before, after, h⟩
      by_cases hlong : q.length ≤ before.length
      · -- The occurrence is behind the pattern found here.
        refine Or.inr ⟨hp, before.drop q.length, after, ?_⟩
        have hdrop := congrArg (List.drop q.length) h
        rwa [List.append_assoc, List.drop_append_of_le_length hlong, List.drop_left,
          ← List.append_assoc] at hdrop
      · have hdrop := congrArg (List.drop before.length) h
        rw [List.append_assoc, List.drop_left, List.drop_append_of_le_length (by omega)] at hdrop
        by_cases hzero : before.length = 0
        · rw [hzero, List.drop_zero] at hdrop
          left
          rw [(hpatterns p hp).unique (hpatterns q hq) (List.prefix_append p after)
            (hdrop ▸ List.prefix_append q rest)]
        · exact absurd ⟨after, hdrop⟩
            ((hpatterns p hp).apart (hpatterns q hq) hne (by omega) (by omega) rest)
  | skip c rest hnone ih =>
    rw [List.mem_cons, ih]
    constructor
    · rintro (h | ⟨hp, h⟩)
      · contradiction
      · exact ⟨hp, h.trans (List.suffix_cons c rest).isInfix⟩
    · rintro ⟨hp, h⟩
      rcases List.infix_cons_iff.mp h with h | h
      · exact absurd h (hnone p hp)
      · exact Or.inr ⟨hp, h⟩

def litRun : List (Item α) → List α
  | .lit c :: rest => c :: litRun rest
  | _ => []

omit [DecidableEq α] in
theorem itemsText_run (items : List (Item α)) :
    itemsText items = litRun items ∨ ∃ q more, .hole q ∈ items ∧
      itemsText items = litRun items ++ (q ++ more) := by
  induction items with
  | nil => exact Or.inl rfl
  | cons item items ih =>
    cases item with
    | lit c =>
      rcases ih with h | ⟨q, more, hq, h⟩
      · exact Or.inl (by simp [Item.text, litRun, h])
      · exact Or.inr ⟨q, more, List.mem_cons_of_mem _ hq, by simp [Item.text, litRun, h]⟩
    | hole q => exact Or.inr ⟨q, itemsText items, List.mem_cons_self, rfl⟩

/-- No pattern stands among the characters between two holes, and every hole is a pattern's. -/
def Clear (patterns : List (List α)) : List (Item α) → Prop
  | [] => True
  | .lit c :: rest => (∀ p ∈ patterns, ¬p <+: c :: litRun rest) ∧ Clear patterns rest
  | .hole q :: rest => q ∈ patterns ∧ Clear patterns rest

omit [DecidableEq α] in
theorem Clear.hole_mem {patterns : List (List α)} {items : List (Item α)}
    (h : Clear patterns items) {q : List α} (hq : .hole q ∈ items) : q ∈ patterns := by
  induction items with
  | nil => simp at hq
  | cons item items ih =>
    cases item with
    | lit c => exact ih h.2 (by simpa using hq)
    | hole p =>
      rcases List.mem_cons.mp hq with hhead | htail
      · obtain rfl := Item.hole.inj hhead
        exact h.1
      · exact ih h.2 htail

theorem clear_scan {patterns : List (List α)}
    (hpatterns : ∀ p ∈ patterns, Bracketed opening closing p) (t : List α) :
    Clear patterns (scan patterns t) := by
  induction t using scan_induction hpatterns with
  | nil => trivial
  | found p hp rest ih => exact ⟨hp, ih⟩
  | skip c rest hnone ih =>
    refine ⟨fun p hp h => hnone p hp (h.trans ?_), ih⟩
    rw [List.cons_prefix_cons]
    refine ⟨rfl, ?_⟩
    have htext := itemsText_scan hpatterns rest
    rcases itemsText_run (scan patterns rest) with hrun | ⟨q, more, -, hrun⟩
    · rw [← hrun, htext]
    · exact ⟨q ++ more, by rw [← hrun, htext]⟩

omit [DecidableEq α] in
theorem own_of_clear {patterns : List (List α)} (hne : opening ≠ closing)
    (hpatterns : ∀ p ∈ patterns, Bracketed opening closing p) {p : List α} (hp : p ∈ patterns)
    {items : List (Item α)} (h : Clear patterns items) : Own p items := by
  induction items with
  | nil => trivial
  | cons item items ih =>
    cases item with
    | hole q => exact ih h.2
    | lit c =>
      refine ⟨fun hprefix => h.1 p hp ?_, ih h.2⟩
      rcases itemsText_run items with hrun | ⟨q, more, hq, hrun⟩
      · rwa [← hrun]
      · rw [hrun, ← List.cons_append] at hprefix
        exact (hpatterns p hp).before (hpatterns q (h.2.hole_mem hq)) hne
          (List.cons_ne_nil _ _) hprefix

/-! ### Templates without the placeholders of some rules -/

omit [DecidableEq α] in
theorem own_append_lits {q t : List α} {items : List (Item α)}
    (hq : Bracketed opening closing q) (ht : opening ∉ t) (h : Own q items) :
    Own q (t.map .lit ++ items) := by
  induction t with
  | nil => exact h
  | cons c t ih =>
    rw [List.mem_cons, not_or] at ht
    refine ⟨fun hprefix => ?_, ih ht.2⟩
    obtain ⟨more, hmore⟩ := hq.opens hprefix
    exact ht.1 (List.cons.inj hmore).1

theorem itemsText_fillAll_run (rule : List α × List α) (items : List (Item α)) :
    itemsText (fillAll [rule] items) = litRun items ∨
    (∃ q more, .hole q ∈ items ∧
      itemsText (fillAll [rule] items) = litRun items ++ (q ++ more)) ∨
    ∃ more, itemsText (fillAll [rule] items) = litRun items ++ (rule.2 ++ more) := by
  induction items with
  | nil => exact Or.inl rfl
  | cons item items ih =>
    cases item with
    | lit c =>
      rcases ih with h | ⟨q, more, hq, h⟩ | ⟨more, h⟩
      · exact Or.inl (by simp [Item.fill, Item.text, litRun, h])
      · refine Or.inr (Or.inl ⟨q, more, List.mem_cons_of_mem _ hq, ?_⟩)
        simp [Item.fill, Item.text, litRun, h]
      · exact Or.inr (Or.inr ⟨more, by simp [Item.fill, Item.text, litRun, h]⟩)
    | hole q =>
      rw [fillAll_cons, itemsText_append, fill_single]
      by_cases hq : q = rule.1
      · refine Or.inr (Or.inr ⟨itemsText (fillAll [rule] items), ?_⟩)
        simp [hq, litRun, itemsText_lits]
      · refine Or.inr (Or.inl ⟨q, itemsText (fillAll [rule] items), List.mem_cons_self, ?_⟩)
        simp [hq, litRun, Item.text]

theorem own_fill {patterns : List (List α)} (hne : opening ≠ closing)
    (hpatterns : ∀ p ∈ patterns, Bracketed opening closing p) {p q value : List α}
    (hq : q ∈ patterns) (hopen : opening ∉ value) (hclose : closing ∉ value)
    (hnotin : ¬value <:+: q) {items : List (Item α)} (h : Clear patterns items) :
    Own q (fillAll [(p, value)] items) := by
  induction items with
  | nil => trivial
  | cons item items ih =>
    cases item with
    | hole r =>
      rw [fillAll_cons, fill_single]
      split
      · exact own_append_lits (hpatterns q hq) hopen (ih h.2)
      · exact ih h.2
    | lit c =>
      refine ⟨fun hprefix => h.1 q hq ?_, ih h.2⟩
      have hprefix' : q <+: c :: itemsText (fillAll [(p, value)] items) := hprefix
      rcases itemsText_fillAll_run (p, value) items with hrun | ⟨r, more, hr, hrun⟩ | ⟨more, hrun⟩
      · rwa [hrun] at hprefix'
      · rw [hrun, ← List.cons_append] at hprefix'
        exact (hpatterns q hq).before (hpatterns r (h.2.hole_mem hr)) hne
          (List.cons_ne_nil _ _) hprefix'
      · rw [hrun, ← List.cons_append] at hprefix'
        exact (hpatterns q hq).before_insert hclose hnotin hprefix'

theorem fillAll_of_absent {rules : List (List α × List α)} {items : List (Item α)}
    (h : ∀ rule ∈ rules, .hole rule.1 ∉ items) : fillAll rules items = items := by
  induction items with
  | nil => rfl
  | cons item items ih =>
    have hrest : ∀ rule ∈ rules, .hole rule.1 ∉ items := fun rule hrule hmem =>
      h rule hrule (List.mem_cons_of_mem _ hmem)
    cases item with
    | lit c => simp [Item.fill, ih hrest]
    | hole q =>
      have hlookup : List.lookup q rules = none := by
        rw [List.lookup_eq_none_iff]
        intro rule hrule
        simpa using fun heq => h rule hrule (by rw [heq]; exact List.mem_cons_self)
      simp [Item.fill, hlookup, ih hrest]

theorem settled_append_absent {patterns : List (List α)} (hne : opening ≠ closing)
    (hpatterns : ∀ p ∈ patterns, Bracketed opening closing p)
    {rules more : List (List α × List α)} {items : List (Item α)} (hclear : Clear patterns items)
    (hmem : ∀ rule ∈ rules, rule.1 ∈ patterns) (h : ∀ rule ∈ rules, .hole rule.1 ∉ items)
    (hmore : Settled more items) : Settled (rules ++ more) items := by
  induction rules with
  | nil => exact hmore
  | cons rule rules ih =>
    refine ⟨own_of_clear hne hpatterns (hmem rule List.mem_cons_self) hclear, ?_⟩
    rw [fillAll_of_absent fun r hr => List.mem_singleton.mp hr ▸ h rule List.mem_cons_self]
    exact ih (fun r hr => hmem r (List.mem_cons_of_mem _ hr))
      fun r hr => h r (List.mem_cons_of_mem _ hr)

theorem settled_pair {patterns : List (List α)} (hne : opening ≠ closing)
    (hpatterns : ∀ p ∈ patterns, Bracketed opening closing p) {p q value : List α}
    (hp : p ∈ patterns) (hq : q ∈ patterns) (hopen : opening ∉ value) (hclose : closing ∉ value)
    (hnotin : ¬value <:+: q) {items : List (Item α)} (hclear : Clear patterns items) :
    Settled [(p, value), (q, value)] items :=
  ⟨own_of_clear hne hpatterns hp hclear,
    own_fill hne hpatterns hq hopen hclose hnotin hclear, trivial⟩

/-! ### The order of the rules -/

theorem lookup_perm {rules other : List (List α × List α)} (h : rules.Perm other)
    (hkeys : (rules.map Prod.fst).Nodup) (q : List α) : rules.lookup q = other.lookup q := by
  induction h with
  | nil => rfl
  | cons rule _ ih =>
    obtain ⟨pattern, value⟩ := rule
    rw [List.map_cons, List.nodup_cons] at hkeys
    simp only [List.lookup_cons]
    split
    · rfl
    · exact ih hkeys.2
  | swap first second rest =>
    obtain ⟨p, value⟩ := first
    obtain ⟨p', value'⟩ := second
    simp only [List.map_cons, List.nodup_cons, List.mem_cons, not_or] at hkeys
    by_cases hfirst : q = p
    · have hsecond : (p == p') = false := by simpa using Ne.symm hkeys.1.1
      simp [List.lookup_cons, hfirst, hsecond]
    · simp [List.lookup_cons, show (q == p) = false by simpa using hfirst]
  | trans h _ ih ih' => exact (ih hkeys).trans (ih' ((h.map _).nodup_iff.mp hkeys))

theorem substitute_perm {rules other : List (List α × List α)} (h : rules.Perm other)
    (hrules : ∀ rule ∈ rules, Bracketed opening closing rule.1)
    (hkeys : (rules.map Prod.fst).Nodup) (t : List α) :
    substitute rules t = substitute other t := by
  have hpatterns : ∀ p ∈ rules.map Prod.fst, Bracketed opening closing p := by
    intro p hp
    obtain ⟨rule, hrule, rfl⟩ := List.mem_map.mp hp
    exact hrules rule hrule
  have hmem : ∀ p, p ∈ other.map Prod.fst ↔ p ∈ rules.map Prod.fst := fun p =>
    (h.map Prod.fst).symm.mem_iff
  have hother : ∀ p ∈ other.map Prod.fst, Bracketed opening closing p := fun p hp =>
    hpatterns p ((hmem p).mp hp)
  have hscan : scan (other.map Prod.fst) t = scan (rules.map Prod.fst) t := by
    induction t using scan_induction hpatterns with
    | nil => rfl
    | found p hp rest ih => rw [scan_hole hother ((hmem p).mpr hp), ih]
    | skip c rest hnone ih => rw [scan_skip fun p hp => hnone p ((hmem p).mp hp), ih]
  rw [substitute, substitute, hscan]
  congr 1
  refine List.flatMap_congr fun item _ => ?_
  cases item with
  | lit c => rfl
  | hole q => simp only [Item.fill, lookup_perm h hkeys q]

/-! ### Values that are placeholders themselves -/

def Item.swap (clients : List (List α)) (into : List α) : Item α → Item α
  | .lit c => .lit c
  | .hole q => if q ∈ clients then .hole into else .hole q

def swapAll (clients : List (List α)) (into : List α) (items : List (Item α)) : List (Item α) :=
  items.map (Item.swap clients into)

theorem litRun_swapAll (clients : List (List α)) (into : List α) (items : List (Item α)) :
    litRun (swapAll clients into items) = litRun items := by
  induction items with
  | nil => rfl
  | cons item items ih =>
    cases item with
    | lit c => exact congrArg (c :: ·) ih
    | hole q =>
      simp only [swapAll, List.map_cons, Item.swap]
      split <;> rfl

theorem Clear.swapAll {patterns clients : List (List α)} {into : List α} {items : List (Item α)}
    (h : Clear patterns items) (hinto : into ∈ patterns) :
    Clear patterns (swapAll clients into items) := by
  induction items with
  | nil => trivial
  | cons item items ih =>
    cases item with
    | lit c => exact ⟨fun p hp => by rw [← Library.swapAll, litRun_swapAll]; exact h.1 p hp, ih h.2⟩
    | hole q =>
      simp only [Library.swapAll, List.map_cons, Item.swap]
      split
      · exact ⟨hinto, ih h.2⟩
      · exact ⟨h.1, ih h.2⟩

theorem itemsText_fill_swap (p into : List α) (items : List (Item α)) :
    itemsText (fillAll [(p, into)] items) = itemsText (swapAll [p] into items) := by
  induction items with
  | nil => rfl
  | cons item items ih =>
    rw [fillAll_cons, itemsText_append, ih]
    cases item with
    | lit c => rfl
    | hole q =>
      by_cases hq : q = p
      · simp [fill_single, swapAll, Item.swap, hq, itemsText_lits, Item.text]
      · simp [fill_single, swapAll, Item.swap, hq, Item.text]

theorem swapAll_swapAll {clients : List (List α)} {p into : List α} (hinto : into ∉ clients)
    (items : List (Item α)) :
    swapAll clients into (swapAll [p] into items) = swapAll (p :: clients) into items := by
  rw [swapAll, swapAll, List.map_map]
  refine List.map_congr_left fun item _ => ?_
  cases item with
  | lit c => rfl
  | hole q =>
    by_cases hq : q = p
    · simp [Item.swap, hq, hinto]
    · simp [Item.swap, hq]

theorem replaceEach_into {patterns : List (List α)} (hne : opening ≠ closing)
    (hpatterns : ∀ p ∈ patterns, Bracketed opening closing p) {clients : List (List α)}
    {into : List α} (hclients : ∀ p ∈ clients, p ∈ patterns) (hinto : into ∈ patterns)
    (hnot : into ∉ clients) {items : List (Item α)} (h : Clear patterns items) :
    replaceEach (clients.map (·, into)) (itemsText items) =
      itemsText (swapAll clients into items) := by
  induction clients generalizing items with
  | nil =>
    have hsame : swapAll [] into items = items := by
      refine (List.map_congr_left fun item _ => ?_).trans (List.map_id items)
      cases item <;> simp [Item.swap]
    rw [hsame]
    rfl
  | cons p clients ih =>
    rw [List.mem_cons, not_or] at hnot
    have hp := hclients p List.mem_cons_self
    have hstep := replaceAll_itemsText (hpatterns p hp) hne into
      (fun q hq => hpatterns q (h.hole_mem hq)) (own_of_clear hne hpatterns hp h)
    calc replaceEach ((p :: clients).map (·, into)) (itemsText items)
        = replaceEach (clients.map (·, into)) (replaceAll p into (itemsText items)) := rfl
      _ = replaceEach (clients.map (·, into)) (itemsText (swapAll [p] into items)) := by
        rw [hstep, itemsText_fill_swap]
      _ = itemsText (swapAll clients into (swapAll [p] into items)) :=
        ih (fun q hq => hclients q (List.mem_cons_of_mem _ hq)) hnot.2 (h.swapAll hinto)
      _ = itemsText (swapAll (p :: clients) into items) := by rw [swapAll_swapAll hnot.2]

theorem fill_map_append (clients : List (List α)) (into : List α)
    (last : List (List α × List α)) (q : List α) :
    (Item.hole q).fill (clients.map (·, into) ++ last) =
      if q ∈ clients then into.map .lit else (Item.hole q).fill last := by
  induction clients with
  | nil => simp
  | cons p clients ih =>
    by_cases hq : q = p
    · simp [Item.fill, hq]
    · rw [List.map_cons, List.cons_append]
      simpa [Item.fill, List.lookup_cons, show (q == p) = false by simpa using hq, hq] using ih

omit [DecidableEq α] in
theorem length_flatMap_le {items : List (Item α)} {f g : Item α → List (Item α)}
    (h : ∀ item ∈ items, (itemsText (f item)).length ≤ (itemsText (g item)).length) :
    (itemsText (items.flatMap f)).length ≤ (itemsText (items.flatMap g)).length := by
  induction items with
  | nil => exact Nat.le_refl _
  | cons item items ih =>
    have hhead := h item List.mem_cons_self
    have htail := ih fun i hi => h i (List.mem_cons_of_mem _ hi)
    simp only [List.flatMap_cons, itemsText_append, List.length_append]
    omega

omit [DecidableEq α] in
theorem length_flatMap_lt {items : List (Item α)} {f g : Item α → List (Item α)}
    (hle : ∀ item ∈ items, (itemsText (f item)).length ≤ (itemsText (g item)).length)
    (hlt : ∃ item ∈ items, (itemsText (f item)).length < (itemsText (g item)).length) :
    (itemsText (items.flatMap f)).length < (itemsText (items.flatMap g)).length := by
  obtain ⟨item, hitem, hlt⟩ := hlt
  obtain ⟨before, after, rfl⟩ := List.append_of_mem hitem
  have hbefore := length_flatMap_le fun i hi => hle i (List.mem_append_left _ hi)
  have hafter : (itemsText (after.flatMap f)).length ≤ (itemsText (after.flatMap g)).length :=
    length_flatMap_le fun i hi => hle i (List.mem_append_right _ (List.mem_cons_of_mem _ hi))
  simp only [List.flatMap_append, List.flatMap_cons, itemsText_append, List.length_append]
  omega

/-- With the placeholder `into` as the value of the client rules, the last rules fill the holes of
the client rules as they fill `into`. -/
theorem replaceEach_clients (hne : opening ≠ closing) {clients : List (List α)}
    {other into value : List α}
    (hpatterns : ∀ p ∈ clients ++ [other, into], Bracketed opening closing p)
    (hnot : into ∉ clients) (hopen : opening ∉ value) (hclose : closing ∉ value)
    (hnotin : ¬value <:+: into) (t : List α) :
    replaceEach (clients.map (·, into) ++ [(other, value), (into, value)]) t =
      itemsText ((scan (clients ++ [other, into]) t).flatMap fun item =>
        (item.swap clients into).fill [(other, value), (into, value)]) := by
  set patterns := clients ++ [other, into] with hdef
  set last : List (List α × List α) := [(other, value), (into, value)] with hlast
  have hclear := clear_scan hpatterns t
  have hinto : into ∈ patterns := by simp [hdef]
  have hother : other ∈ patterns := by simp [hdef]
  calc replaceEach (clients.map (·, into) ++ last) t
      = replaceEach last (replaceEach (clients.map (·, into)) (itemsText (scan patterns t))) := by
        rw [itemsText_scan hpatterns, replaceEach, List.foldl_append]; rfl
    _ = replaceEach last (itemsText (swapAll clients into (scan patterns t))) := by
      rw [replaceEach_into hne hpatterns (fun q hq => List.mem_append_left _ hq) hinto hnot hclear]
    _ = itemsText (fillAll last (swapAll clients into (scan patterns t))) := by
      have hswap : Clear patterns (swapAll clients into (scan patterns t)) :=
        hclear.swapAll hinto
      refine replaceEach_of_settled hne ?_ (fun q hq => hpatterns q (hswap.hole_mem hq))
        (settled_pair hne hpatterns hother hinto hopen hclose hnotin hswap)
      intro rule hrule
      rcases List.mem_cons.mp hrule with rfl | hrule
      · exact hpatterns other hother
      · rw [List.mem_singleton.mp hrule]
        exact hpatterns into hinto
    _ = _ := by rw [fillAll, swapAll, List.flatMap_map]

/-- With the placeholder `into` as the value of the client rules, the text put into the template is
replaced again by the last rules, where the template has a placeholder of the client rules. -/
theorem replaceEach_ne_substitute (hne : opening ≠ closing) {clients : List (List α)}
    {other into value : List α}
    (hpatterns : ∀ p ∈ clients ++ [other, into], Bracketed opening closing p)
    (hdistinct : (clients ++ [other, into]).Nodup) (hopen : opening ∉ value)
    (hclose : closing ∉ value) (hnotin : ¬value <:+: into) (hshort : value.length < into.length)
    {p t : List α} (hp : p ∈ clients) (ht : p <:+: t) :
    replaceEach (clients.map (·, into) ++ [(other, value), (into, value)]) t ≠
      substitute (clients.map (·, into) ++ [(other, value), (into, value)]) t := by
  set last : List (List α × List α) := [(other, value), (into, value)] with hlast
  have hkeys : (clients.map (·, into) ++ last).map Prod.fst = clients ++ [other, into] := by
    simp [hlast, Function.comp_def]
  rw [List.nodup_append] at hdistinct
  have hnot : into ∉ clients := fun h => hdistinct.2.2 into h into (by simp) rfl
  have hapart : other ≠ into := by simpa using hdistinct.2.1
  rw [replaceEach_clients hne hpatterns hnot hopen hclose hnotin t, substitute, hkeys]
  intro heq
  -- A hole of a client rule holds `value` on the left and `into` on the right, and all other pieces
  -- are the same on both sides.
  have hclient : ∀ q ∈ clients,
      (itemsText (((Item.hole q).swap clients into).fill last)).length <
        (itemsText ((Item.hole q).fill (clients.map (·, into) ++ last))).length := by
    intro q hq
    have hlookup : List.lookup into last = some value := by
      simp [hlast, List.lookup_cons, show (into == other) = false by simpa using Ne.symm hapart]
    rw [fill_map_append, if_pos hq, itemsText_lits]
    simpa [Item.swap, hq, Item.fill, hlookup, itemsText_lits] using hshort
  refine absurd (congrArg List.length heq) (Nat.ne_of_lt (length_flatMap_lt ?_ ?_))
  · intro item hitem
    cases item with
    | lit c => rfl
    | hole q =>
      by_cases hq : q ∈ clients
      · exact (hclient q hq).le
      · rw [fill_map_append, if_neg hq, Item.swap, if_neg hq]
  · have hhole : .hole p ∈ scan (clients ++ [other, into]) t :=
      (hole_mem_scan_iff hne hpatterns p t).mpr ⟨List.mem_append_left _ hp, ht⟩
    exact ⟨.hole p, hhole, hclient p hp⟩

end Bracketed

end Library
