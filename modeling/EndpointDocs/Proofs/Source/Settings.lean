import EndpointDocs.Proofs.Source.LocalExpressions
import EndpointDocs.Shape
import Mathlib.Data.List.Forall2

/-!
# Settings wherever they stand

The written name of a field or variant is set by the `serde` attributes in front of it, whose lists
hold settings of three forms: a word, a word that is set to an expression, and a word with a list of
its own. Few of them matter (`Setting`), but each has to be read to its end, or everything behind it
in the list is lost. Where a setting is taken exactly, the next one is found
(`setting_eq_of_spelled`), so the attributes have the effect of their settings one after another
(`naming_of_setBy`), and it does not matter to which list a setting belongs.

Main statement: `shape_of_setBy`.
-/

namespace EndpointDocs.Source

variable {g : Grammar} {ts us body tail : List Token} {items : List (List Token)}

/-! ## How settings are written

What is asked of the tokens is only what tells one setting from the next. The value of a setting may
be any expression: `IsExpression` says that the grammar reads these tokens as one when nothing is
behind them. -/

/-- The tokens are those of an expression. -/
def IsExpression (g : Grammar) (ts : List Token) : Prop :=
  ∃ form, (g (.expression true)).run ts = some (form, [])

/-- Items with commas between them, and perhaps one behind the last. -/
inductive Joined : List (List Token) → List Token → Prop where
  | nil : Joined [] []
  | last (item : List Token) : Joined [item] item
  | cons (item : List Token) (joint : Bool) {items : List (List Token)} {ts : List Token}
      (h : Joined items ts) : Joined (item :: items) (item ++ .mark ',' joint :: ts)

/-- The tokens of a setting inside of another one. -/
inductive InnerSetting (g : Grammar) : List Token → Prop where
  | word (w : Word) : InnerSetting g [.word w]
  | assigned (w : Word) (joint : Bool) {value : List Token} (h : IsExpression g value) :
      InnerSetting g (.word w :: .mark '=' joint :: value)

/-- What a setting does to the written name. -/
inductive Setting where
  | skip
  | rename (name : String)
  | other
deriving DecidableEq

namespace Setting

/-- The tokens of a setting. -/
inductive Spelled (g : Grammar) : Setting → List Token → Prop where
  | skip (w : Word) (h : w.text = "skip") : Spelled g .skip [.word w]
  | rename (w : Word) (h : w.text = "rename") (joint : Bool) (name : String) :
      Spelled g (.rename name) [.word w, .mark '=' joint, .literal (.text name)]
  | word (w : Word) (h : w.text ≠ "skip") : Spelled g .other [.word w]
  | assigned (w : Word) (hskip : w.text ≠ "skip") (hrename : w.text ≠ "rename") (joint : Bool)
      {value : List Token} (h : IsExpression g value) :
      Spelled g .other (.word w :: .mark '=' joint :: value)
  | list (w : Word) (hskip : w.text ≠ "skip") {inner : List (List Token)} {body : List Token}
      (hbody : Joined inner body) (hne : inner ≠ []) (h : ∀ ts ∈ inner, InnerSetting g ts) :
      Spelled g .other [.word w, .group .parens body]

/-- The name that is given. -/
def rename? : Setting → Option String
  | rename name => some name
  | skip | other => none

/-- The naming with the setting in place. -/
def apply (naming : Naming) : Setting → Naming
  | skip => { naming with skipped := true }
  | rename name => { naming with renamed := some name }
  | other => naming

/-- The written name of what is declared by the given name: the last one that is set, or none if one
of the settings is to skip it. -/
def writtenName? (settings : List Setting) (name : String) : Option String :=
  if .skip ∈ settings then none else some ((settings.filterMap rename?).getLast?.getD name)

end Setting

/-- The attributes hold these settings, one after another, in their `serde` lists. Attributes of
another name, and those without a list, hold none. -/
inductive SetBy (g : Grammar) : List Attribute → List Setting → Prop where
  | nil : SetBy g [] []
  | list {a : Attribute} {ts : List Token} {items : List (List Token)} {settings : List Setting}
      {as : List Attribute} {more : List Setting} (hname : a.path = ["serde"])
      (harguments : a.arguments = some ts) (hitems : Joined items ts)
      (hsettings : List.Forall₂ (Setting.Spelled g) settings items) (h : SetBy g as more) :
      SetBy g (a :: as) (settings ++ more)
  | other {a : Attribute} {as : List Attribute} {settings : List Setting}
      (ha : a.path ≠ ["serde"] ∨ a.arguments = none) (h : SetBy g as settings) :
      SetBy g (a :: as) settings

/-! ## Lists with commas

The reader of a list asks the reader of an item where it ends. If that one takes exactly the tokens
of each item, wherever an item may end, then the list is read to its end. -/

/-- There are as many tokens as items, which bounds the rounds that reading them needs. -/
theorem Joined.length_le (h : Joined items ts) (hne : ∀ item ∈ items, item ≠ []) :
    items.length ≤ ts.length := by
  induction h with
  | nil => exact Nat.zero_le _
  | last item => exact List.length_pos_iff.2 (hne item (List.mem_singleton_self item))
  | cons item joint h ih =>
    have hrest := ih fun item hitem => hne item (List.mem_cons_of_mem _ hitem)
    rw [List.length_cons, List.length_append, List.length_cons]
    omega

/-- Where an item of a list may end. -/
def EndsItem (tail : List Token) : Prop := tail = [] ∨ AtComma tail

theorem EndsItem.comma (joint : Bool) (ts : List Token) : EndsItem (.mark ',' joint :: ts) :=
  .inr ⟨joint, ts, rfl⟩

/-- No other mark is ahead where an item ends, so nothing goes on there. -/
theorem EndsItem.atMark_eq_false (h : EndsItem tail) {s : String}
    (hs : s.toList ≠ []) (hcomma : s.toList.contains ',' = false) : atMark s tail = false := by
  have hnil : atMark s [] = false := by
    cases hmark : atMark s [] with
    | false => rfl
    | true => exact absurd rfl (Sees.ne_nil_of_atMark hs hmark)
  rcases h with rfl | h
  · exact hnil
  · exact ((Sees.mark hcomma).append tail h []).trans hnil

/-- A reader that takes exactly the tokens of each item reads the whole list. -/
theorem run_commas {α : Type} {r : Reader α} (h : Joined items body)
    (hne : ∀ item ∈ items, item ≠ [])
    (hr : ∀ item ∈ items, ∀ tail, EndsItem tail → ∃ a, r.run (item ++ tail) = some (a, tail)) :
    ∃ l, (commas r).run body = some (l, []) ∧ l.length = items.length := by
  -- one round for each item and one that finds the end; the induction is on the list, for any bound
  have hrounds : ∀ n, items.length < n → ∃ l,
      (repeatUpTo (nextItem "," atEnd r) n).run body = some (l, []) ∧ l.length = items.length := by
    induction h with
    | nil =>
      intro n hn
      obtain ⟨n, rfl⟩ := Nat.exists_eq_add_one_of_ne_zero (Nat.ne_zero_of_lt hn)
      exact ⟨[], run_repeatUpTo_stop (run_nextItem_stop "," rfl), rfl⟩
    | last item =>
      intro n hn
      obtain ⟨n, rfl⟩ : ∃ k, n = k + 2 := ⟨n - 2, by rw [List.length_singleton] at hn; omega⟩
      have hmem := List.mem_singleton_self item
      obtain ⟨a, ha⟩ := hr item hmem [] (.inl rfl)
      rw [List.append_nil] at ha
      have hstart : atEnd item = false := by simpa [atEnd] using hne item hmem
      refine ⟨[a], run_repeatUpTo_more (run_nextItem_last "," hstart ha rfl) ?_, rfl⟩
      exact run_repeatUpTo_stop (run_nextItem_stop "," rfl)
    | @cons item joint items ts h ih =>
      intro n hn
      obtain ⟨n, rfl⟩ := Nat.exists_eq_add_one_of_ne_zero (Nat.ne_zero_of_lt hn)
      obtain ⟨a, ha⟩ := hr item List.mem_cons_self _ (.comma joint ts)
      have hstart : atEnd (item ++ .mark ',' joint :: ts) = false := by simp [atEnd]
      obtain ⟨l, hl, hlength⟩ := ih (fun item hitem => hne item (List.mem_cons_of_mem _ hitem))
        (fun item hitem => hr item (List.mem_cons_of_mem _ hitem)) n (by simpa using hn)
      refine ⟨a :: l, run_repeatUpTo_more (run_nextItem_more "," hstart ha rfl rfl) hl, ?_⟩
      rw [List.length_cons, hlength, List.length_cons]
  obtain ⟨l, hl, hlength⟩ := hrounds _ (Nat.lt_succ_of_le (h.length_le hne))
  exact ⟨l, run_repeated_of hl, hlength⟩

/-! ## Reading a setting to its end

A setting is read in two steps: the path of words in front, and what the words decide to read behind
them. A word alone ends the setting there and then. A value ends where the expression ends; this is
what the modules on locality are for (`IsExpression.run_append`). A list is a group, and ends with
it. -/

/-- What is an expression by itself is read as the same one in front of a comma. -/
theorem IsExpression.run_append (h : IsExpression g ts) (hg : g.ReadsLocally)
    (htail : EndsItem tail) :
    ∃ form, (g (.expression true)).run (ts ++ tail) = some (form, tail) := by
  obtain ⟨form, hrun⟩ := h
  refine ⟨form, ?_⟩
  rcases htail with rfl | htail
  · rw [List.append_nil, hrun]
  · exact (hg.expression true).run_append htail hrun

namespace Attribute

/-- The path of a setting is one word unless two colons follow. -/
theorem run_settingPath (w : Word) (h : atMark "::" ts = false) :
    settingPath.run (.word w :: ts) = some (some w.text, ts) := by
  have hleading : atMark "::" (.word w :: ts) = false := rfl
  have hword : atAnyWord (.word w :: ts) = true := rfl
  simp [settingPath, mark?, hleading, expect, hword, anyWord, repeated, repeatUpTo, h]

theorem run_settingPath_assigned (w : Word) (joint : Bool) (ts : List Token) :
    settingPath.run (.word w :: .mark '=' joint :: ts) =
      some (some w.text, .mark '=' joint :: ts) :=
  run_settingPath w (by cases joint <;> rfl)

theorem run_mark_assigned (joint : Bool) (ts : List Token) :
    (mark "=").run (.mark '=' joint :: ts) = some ((), ts) := rfl

theorem run_mark?_assigned (joint : Bool) (ts : List Token) :
    (mark? "=").run (.mark '=' joint :: ts) = some (true, ts) := rfl

theorem run_innerSetting {item : List Token} (h : InnerSetting g item) (hg : g.ReadsLocally)
    (htail : EndsItem tail) : (innerSetting g).run (item ++ tail) = some ((), tail) := by
  cases h with
  | word w =>
    have hpath := run_settingPath w (htail.atMark_eq_false (s := "::") (by decide) rfl)
    have hset : atMark "=" tail = false := htail.atMark_eq_false (by decide) rfl
    simp [innerSetting, hpath, mark?, hset]
  | @assigned w joint value h =>
    obtain ⟨form, hform⟩ := h.run_append hg htail
    simp [innerSetting, run_settingPath_assigned, run_mark?_assigned, hform]

theorem run_innerSettings {inner : List (List Token)} (hbody : Joined inner body)
    (hne : inner ≠ []) (h : ∀ ts ∈ inner, InnerSetting g ts) (hg : g.ReadsLocally) :
    (innerSettings g).run (.group .parens body :: tail) = some ((), tail) := by
  -- an item is a word at least, and a list without items is refused
  have hitems : ∀ item ∈ inner, item ≠ [] := by
    intro item hitem
    cases h item hitem <;> exact List.cons_ne_nil _ _
  obtain ⟨l, hl, hlength⟩ := run_commas (r := innerSetting g) hbody hitems
    fun item hitem tail htail => ⟨(), run_innerSetting (h item hitem) hg htail⟩
  have hsome : l ≠ [] := by
    rintro rfl
    exact hne (List.eq_nil_of_length_eq_zero hlength.symm)
  exact run_group (by simp [hl, hsome])

/-- A setting that is written as such takes its own tokens and no others. -/
theorem setting_eq_of_spelled {s : Setting} {item : List Token} (h : s.Spelled g item)
    (hg : g.ReadsLocally) (htail : EndsItem tail) :
    ∃ name us, settingPath.run (item ++ tail) = some (name, us) ∧
      ∀ naming, setting g name naming us = (s.apply naming, some tail) := by
  -- behind a setting the list ends or a comma follows, so neither a path nor a value goes on
  have hcolons : atMark "::" tail = false := htail.atMark_eq_false (by decide) rfl
  have hset : atMark "=" tail = false := htail.atMark_eq_false (by decide) rfl
  have hassigned : ∀ joint us, atMark "=" (.mark '=' joint :: us) = true := fun _ _ => rfl
  cases h with
  | skip w h =>
    refine ⟨_, _, run_settingPath w hcolons, fun naming => ?_⟩
    simp [setting, h, hset, Setting.apply]
  | rename w h joint name =>
    have hpath := run_settingPath_assigned w joint (.literal (.text name) :: tail)
    refine ⟨_, _, hpath, fun naming => ?_⟩
    have hread : (do mark "="; textLiteral : Reader String)
        (.mark '=' joint :: .literal (.text name) :: tail) = some (name, tail) := rfl
    simp [setting, h, hassigned, hread, Setting.apply]
  | word w h =>
    refine ⟨_, _, run_settingPath w hcolons, fun naming => ?_⟩
    have hparens : atGroup .parens tail = false := by
      rcases htail with rfl | ⟨joint, more, rfl⟩ <;> rfl
    simp [setting, h, hset, hparens, Setting.apply]
  | @assigned w hskip hrename joint value h =>
    obtain ⟨form, hform⟩ := h.run_append hg htail
    refine ⟨_, _, run_settingPath_assigned w joint (value ++ tail), fun naming => ?_⟩
    have hread : (do mark "="; let _ ← g (.expression true) : Reader Unit).run
        (.mark '=' joint :: (value ++ tail)) = some ((), tail) := by
      simp [run_mark_assigned, hform]
    rw [setting, if_neg (by simp [hrename]), if_neg (by simp [hskip]), if_pos (hassigned joint _)]
    exact congrArg (fun left => (naming, Option.map Prod.snd left)) hread
  | @list w hskip inner body hbody hne h =>
    have hpath : settingPath.run (.word w :: .group .parens body :: tail) =
        some (some w.text, .group .parens body :: tail) := run_settingPath w rfl
    refine ⟨_, _, hpath, fun naming => ?_⟩
    have hinner : (innerSettings g).run (.group .parens body :: tail) = some ((), tail) :=
      run_innerSettings hbody hne h hg
    have hunset : atMark "=" (.group .parens body :: tail) = false := rfl
    have hparens : atGroup .parens (.group .parens body :: tail) = true := rfl
    rw [setting, if_neg (by simp [hunset]), if_neg (by simp [hskip]), if_neg (by simp [hunset]),
      if_pos hparens]
    exact congrArg (fun left => (naming, Option.map Prod.snd left)) hinner

theorem settings_nil (n : Nat) (naming : Naming) : settings g n naming [] = naming := by
  cases n <;> rfl

/-- The settings of a list have their effect one after another. The rest of the list is behind the
comma that ends its first item. -/
theorem settings_eq_foldl {ss : List Setting} (h : Joined items ts)
    (hss : List.Forall₂ (Setting.Spelled g) ss items) (hg : g.ReadsLocally) {n : Nat}
    (hn : items.length ≤ n) (naming : Naming) :
    settings g n naming ts = ss.foldl Setting.apply naming := by
  induction h generalizing ss n naming with
  | nil =>
    cases hss
    exact settings_nil n naming
  | last item =>
    obtain ⟨s, ss, hs, hrest, rfl⟩ := List.forall₂_cons_right_iff.1 hss
    cases hrest
    obtain ⟨n, rfl⟩ := Nat.exists_eq_add_one_of_ne_zero (Nat.ne_zero_of_lt hn)
    have hend : EndsItem [] := .inl rfl
    obtain ⟨name, us, hpath, hsetting⟩ := setting_eq_of_spelled hs hg hend
    rw [List.append_nil] at hpath
    have hpath' : settingPath item = some (name, us) := hpath
    rw [settings, hpath']
    dsimp only
    rw [hsetting]
    rfl
  | @cons item joint items ts h ih =>
    obtain ⟨s, ss, hs, hrest, rfl⟩ := List.forall₂_cons_right_iff.1 hss
    obtain ⟨n, rfl⟩ := Nat.exists_eq_add_one_of_ne_zero (Nat.ne_zero_of_lt hn)
    obtain ⟨name, us, hpath, hsetting⟩ := setting_eq_of_spelled hs hg (.comma joint ts)
    have hpath' : settingPath (item ++ .mark ',' joint :: ts) = some (name, us) := hpath
    have hmore := ih hrest (Nat.le_of_succ_le_succ hn) (s.apply naming)
    rw [settings, hpath']
    dsimp only
    rw [hsetting]
    -- the comma may be the last token of the list, where the loop ends without another round
    show (if ts.isEmpty then s.apply naming else settings g n (s.apply naming) ts) = _
    split
    · next hempty =>
      rw [List.isEmpty_iff.1 hempty, settings_nil] at hmore
      exact hmore
    · exact hmore

end Attribute

/-! ## The settings of all lists

The attributes of a field are folded over the naming one after another, and each list over what the
lists in front of it left. So all the settings form one list, in which only the last name and any
setting to skip are left to see (`foldl_apply`). -/

/-- Every setting starts with a word. -/
theorem ne_nil_of_spelled {ss : List Setting} (h : List.Forall₂ (Setting.Spelled g) ss items) :
    ∀ item ∈ items, item ≠ [] := by
  induction h with
  | nil => exact fun item hitem => nomatch hitem
  | cons hs _ ih =>
    refine List.forall_mem_cons.2 ⟨?_, ih⟩
    cases hs <;> exact List.cons_ne_nil _ _

/-- Attributes without settings leave the naming as it is. The naming at the start is free in the
induction. -/
theorem naming_eq_foldl {attributes : List Attribute} {ss : List Setting}
    (h : SetBy g attributes ss) (hg : g.ReadsLocally) :
    Attribute.naming g attributes = ss.foldl Setting.apply {} := by
  unfold Attribute.naming
  -- the lists in front have changed it when a list comes up
  generalize ({} : Naming) = naming
  induction h generalizing naming with
  | nil => rfl
  | @list a ts items ss as more hname harguments hitems hss h ih =>
    have hnamed : a.named "serde" = true := by simp [Attribute.named, hname]
    have hlength := Nat.le_succ_of_le (hitems.length_le (ne_nil_of_spelled hss))
    rw [List.filter_cons, if_pos hnamed, List.foldl_cons, harguments, ih, List.foldl_append]
    exact congrArg (more.foldl Setting.apply)
      (Attribute.settings_eq_foldl hitems hss hg hlength naming)
  | @other a as ss ha h ih =>
    rw [List.filter_cons]
    split
    · next hnamed =>
      have hname : a.path = ["serde"] := by simpa [Attribute.named] using hnamed
      have harguments : a.arguments = none := ha.resolve_left (not_not_intro hname)
      rw [List.foldl_cons, harguments, ih]
    · exact ih naming

/-- The last name counts, and every setting to skip. -/
theorem foldl_apply (ss : List Setting) (naming : Naming) :
    ss.foldl Setting.apply naming =
      ⟨(ss.filterMap Setting.rename?).getLast?.or naming.renamed,
        naming.skipped || decide (.skip ∈ ss)⟩ := by
  induction ss generalizing naming with
  | nil => simp
  | cons s ss ih =>
    rw [List.foldl_cons, ih]
    cases s with
    | skip => simp [Setting.apply, Setting.rename?]
    | rename name =>
      cases hlast : (ss.filterMap Setting.rename?).getLast? <;>
        simp [Setting.apply, Setting.rename?, List.getLast?_cons, hlast]
    | other => simp [Setting.apply, Setting.rename?]

/-- The attributes have the effect of their settings. -/
theorem naming_of_setBy {n : Nat} {attributes : List Attribute} {ss : List Setting}
    (h : SetBy (Grammar.upTo n) attributes ss) :
    Attribute.naming (Grammar.upTo n) attributes =
      ⟨(ss.filterMap Setting.rename?).getLast?, decide (.skip ∈ ss)⟩ := by
  rw [naming_eq_foldl h (Grammar.readsLocally_upTo n), foldl_apply]
  simp

/-! ## Fields and variants

The readers of fields and variants are cut in two: the attributes, and what is behind them. Two
lists of attributes that leave the same tokens and the same naming then give the same field or
variant. -/

namespace Declaration

/-- A named field behind its attributes: its name and its type. -/
def nameAndType (g : Grammar) : Reader (String × TypeExpr) := do
  let _ ← visibility
  let name ← if ← ahead (atWord "_") then anyWord else identifier
  mark ":"
  return (name, (← g (.type true)).meaning)

/-- The field with the part behind its attributes as one reader. -/
theorem namedField_eq (g : Grammar) : namedField g = (do
    let attributes ← Attribute.outer g
    let (name, type) ← nameAndType g
    return {
      name := some name
      type := type
      naming := Attribute.naming g attributes
      description := Attribute.description attributes }) := by
  unfold namedField nameAndType
  refine bind_congr fun attributes => ?_
  simp only [bind_assoc]
  refine bind_congr fun visible => bind_congr fun isUnderscore => ?_
  cases isUnderscore <;> simp

/-- A variant behind its attributes; only its name is kept. -/
def variantName (g : Grammar) : Reader String := do
  let _ ← visibility
  let name ← identifier
  let ts ← get
  if atGroup .braces ts then let _ ← namedFields g
  else if atGroup .parens ts then let _ ← unnamedFields g
  if ← mark? "=" then let _ ← g (.expression true)
  return name

theorem enumVariant_eq (g : Grammar) : enumVariant g = (do
    let attributes ← Attribute.outer g
    let name ← variantName g
    return ⟨name, Attribute.naming g attributes⟩) := by
  unfold enumVariant variantName
  refine bind_congr fun attributes => ?_
  -- what may be set to a value comes last in all three forms of a variant
  have hvalue : ∀ name : String, (do
      if ← mark? "=" then let _ ← g (.expression true)
      return ⟨name, Attribute.naming g attributes⟩ : Reader EnumVariant) = (do
      let name ← (do if ← mark? "=" then let _ ← g (.expression true)
                     return name)
      return ⟨name, Attribute.naming g attributes⟩) := by
    intro name
    simp only [bind_assoc]
    refine bind_congr fun assigned => ?_
    cases assigned <;> simp
  simp only [bind_assoc]
  refine bind_congr fun visible => bind_congr fun name => bind_congr fun ts => ?_
  split
  · exact (bind_congr fun _ => hvalue name).trans (bind_assoc ..).symm
  · split
    · exact (bind_congr fun _ => hvalue name).trans (bind_assoc ..).symm
    · exact hvalue name

theorem run_namedField {attributes : List Attribute}
    (h : (Attribute.outer g).run ts = some (attributes, us)) :
    (namedField g).run ts = ((nameAndType g).run us).map fun r =>
      (⟨some r.1.1, r.1.2, Attribute.naming g attributes, Attribute.description attributes⟩,
        r.2) := by
  simp [namedField_eq, h]

theorem run_enumVariant {attributes : List Attribute}
    (h : (Attribute.outer g).run ts = some (attributes, us)) :
    (enumVariant g).run ts = ((variantName g).run us).map fun r =>
      (⟨r.1, Attribute.naming g attributes⟩, r.2) := by
  simp [enumVariant_eq, h]

end Declaration

/-- What the shape keeps of a field depends on its attributes through the naming alone. -/
theorem ofField?_of_naming {ss : List Setting} {f : Field} {name : String}
    (hname : f.name = some name)
    (hnaming : f.naming = ⟨(ss.filterMap Setting.rename?).getLast?, decide (.skip ∈ ss)⟩) :
    Shape.ofField? f =
      (Setting.writtenName? ss name).map fun written => ⟨written, f.type, f.description⟩ := by
  rw [Shape.ofField?, hname, hnaming, Setting.writtenName?]
  by_cases hskip : Setting.skip ∈ ss <;> simp [hskip]

theorem nameOfVariant?_of_naming {ss : List Setting} {v : EnumVariant}
    (hnaming : v.naming = ⟨(ss.filterMap Setting.rename?).getLast?, decide (.skip ∈ ss)⟩) :
    Shape.nameOfVariant? v = Setting.writtenName? ss v.name := by
  rw [Shape.nameOfVariant?, hnaming, Setting.writtenName?]
  by_cases hskip : Setting.skip ∈ ss <;> simp [hskip]

/-- A field or variant is left out of the shape if one of its settings is to skip it. Otherwise it
has the last name that is set, or its own without one. So the settings may be spread over the
attributes in another way, and stand in another order if the names keep theirs. -/
theorem shape_of_setBy {n : Nat} {attributes : List Attribute} {ss : List Setting}
    (h : SetBy (Grammar.upTo n) attributes ss)
    (hts : (Attribute.outer (Grammar.upTo n)).run ts = some (attributes, us)) :
    (∀ f rest, (Declaration.namedField (Grammar.upTo n)).run ts = some (f, rest) →
      ∃ name, f.name = some name ∧ Shape.ofField? f =
        (Setting.writtenName? ss name).map fun written => ⟨written, f.type, f.description⟩) ∧
    (∀ v rest, (Declaration.enumVariant (Grammar.upTo n)).run ts = some (v, rest) →
      Shape.nameOfVariant? v = Setting.writtenName? ss v.name) ∧
    ∀ ts' attributes' ss', SetBy (Grammar.upTo n) attributes' ss' →
      (Attribute.outer (Grammar.upTo n)).run ts' = some (attributes', us) → ss'.Perm ss →
      ss'.filterMap Setting.rename? = ss.filterMap Setting.rename? →
      attributes'.filter (·.named "doc") = attributes.filter (·.named "doc") →
      ((Declaration.namedField (Grammar.upTo n)).run ts').map (Prod.map Shape.ofField? id) =
          ((Declaration.namedField (Grammar.upTo n)).run ts).map (Prod.map Shape.ofField? id) ∧
        ((Declaration.enumVariant (Grammar.upTo n)).run ts').map
            (Prod.map Shape.nameOfVariant? id) =
          ((Declaration.enumVariant (Grammar.upTo n)).run ts).map
            (Prod.map Shape.nameOfVariant? id) := by
  have hnaming := naming_of_setBy h
  refine ⟨fun f rest hf => ?_, fun v rest hv => ?_, ?_⟩
  · rw [Declaration.run_namedField hts] at hf
    obtain ⟨⟨⟨name, type⟩, left⟩, -, heq⟩ := Option.map_eq_some_iff.1 hf
    cases heq
    exact ⟨name, rfl, ofField?_of_naming rfl hnaming⟩
  · rw [Declaration.run_enumVariant hts] at hv
    obtain ⟨⟨name, left⟩, -, heq⟩ := Option.map_eq_some_iff.1 hv
    cases heq
    exact nameOfVariant?_of_naming hnaming
  · intro ts' attributes' ss' h' hts' hperm hrename hdoc
    -- what is read of the attributes is the order of the names and what occurs at all
    have hsame : Attribute.naming (Grammar.upTo n) attributes' =
        Attribute.naming (Grammar.upTo n) attributes := by
      rw [naming_of_setBy h', hnaming, hrename]
      simp only [hperm.mem_iff]
    have hdescription : Attribute.description attributes' = Attribute.description attributes := by
      rw [Attribute.description, Attribute.description, hdoc]
    rw [Declaration.run_namedField hts, Declaration.run_namedField hts', hsame, hdescription,
      Declaration.run_enumVariant hts, Declaration.run_enumVariant hts', hsame]
    exact ⟨rfl, rfl⟩

/-! ## A field with several attributes

The settings of one field twice: spread over two lists with a documentation between them, and joined
in one list in another order. The list of `bound` has a comma inside of its own group. -/

section mailbox

/-- `default = "empty"` -/
def defaultItem : List Token :=
  [.word ⟨"default", rfl⟩, .mark '=' false, .literal (.text "empty")]

/-- `bound(serialize = "T", deserialize)` -/
def boundItem : List Token :=
  [.word ⟨"bound", rfl⟩, .group .parens
    ([.word ⟨"serialize", rfl⟩, .mark '=' false, .literal (.text "T")] ++
      .mark ',' false :: [.word ⟨"deserialize", rfl⟩])]

/-- `rename = "mail"` -/
def renameItem : List Token := [.word ⟨"rename", rfl⟩, .mark '=' false, .literal (.text "mail")]

/-- `flatten` -/
def flattenItem : List Token := [.word ⟨"flatten", rfl⟩]

/-- The attribute with the given list, and its tokens. -/
def serdeList (list : List Token) : Attribute × List Token :=
  (⟨["serde"], some list, none⟩,
    [.mark '#' false, .group .brackets [.word ⟨"serde", rfl⟩, .group .parens list]])

def lettersDoc : Attribute × List Token :=
  (⟨["doc"], none, some "Where letters go."⟩,
    [.mark '#' false, .group .brackets
      [.word ⟨"doc", rfl⟩, .mark '=' false, .literal (.text "Where letters go.")]])

/-- `mailbox: Mailbox` -/
def mailboxField : List Token :=
  [.word ⟨"mailbox", rfl⟩, .mark ':' false, .word ⟨"Mailbox", rfl⟩]

/-- Two lists, the second one with a comma at its end. -/
def spreadAttributes : List (Attribute × List Token) :=
  [serdeList (defaultItem ++ .mark ',' false :: (boundItem ++ .mark ',' false :: renameItem)),
    lettersDoc, serdeList (flattenItem ++ .mark ',' false :: [])]

/-- The same settings in one list. -/
def joinedAttributes : List (Attribute × List Token) :=
  [lettersDoc, serdeList (renameItem ++ .mark ',' false :: (flattenItem ++ .mark ',' false ::
    (boundItem ++ .mark ',' false :: defaultItem)))]

theorem isExpression_text (text : String) : IsExpression (Grammar.upTo 4) [.literal (.text text)] :=
  ⟨.other, rfl⟩

theorem spelled_defaultItem : Setting.Spelled (Grammar.upTo 4) .other defaultItem :=
  .assigned _ (by decide) (by decide) false (isExpression_text _)

theorem spelled_boundItem : Setting.Spelled (Grammar.upTo 4) .other boundItem := by
  refine .list _ (by decide) (.cons _ false (.last _)) (List.cons_ne_nil _ _) ?_
  rintro item hitem
  rcases List.mem_cons.1 hitem with rfl | hitem
  · exact .assigned _ false (isExpression_text _)
  · obtain rfl := List.mem_singleton.1 hitem
    exact .word _

theorem spelled_renameItem : Setting.Spelled (Grammar.upTo 4) (.rename "mail") renameItem :=
  .rename _ rfl false _

theorem spelled_flattenItem : Setting.Spelled (Grammar.upTo 4) .other flattenItem :=
  .word _ (by decide)

theorem setBy_spreadAttributes : SetBy (Grammar.upTo 4) (spreadAttributes.map Prod.fst)
    ([.other, .other, .rename "mail"] ++ ([.other] ++ [])) := by
  refine .list rfl rfl (.cons _ false (.cons _ false (.last _))) ?_ (.other (.inr rfl) ?_)
  · exact .cons spelled_defaultItem (.cons spelled_boundItem (.cons spelled_renameItem .nil))
  · exact .list rfl rfl (.cons _ false .nil) (.cons spelled_flattenItem .nil) .nil

theorem setBy_joinedAttributes : SetBy (Grammar.upTo 4) (joinedAttributes.map Prod.fst)
    ([.rename "mail", .other, .other, .other] ++ []) := by
  refine .other (.inr rfl) (.list rfl rfl
    (.cons _ false (.cons _ false (.cons _ false (.last _)))) ?_ .nil)
  exact .cons spelled_renameItem (.cons spelled_flattenItem (.cons spelled_boundItem
    (.cons spelled_defaultItem .nil)))

/-- The field has the name that is set, in whatever list, and a variant that is to be skipped has
none. -/
theorem shape_mailbox :
    SetBy (Grammar.upTo 4) (spreadAttributes.map Prod.fst)
      [.other, .other, .rename "mail", .other] ∧
    (Attribute.outer (Grammar.upTo 4)).run (spreadAttributes.flatMap Prod.snd ++ mailboxField) =
      some (spreadAttributes.map Prod.fst, mailboxField) ∧
    ((Declaration.namedField (Grammar.upTo 4)).run
        (spreadAttributes.flatMap Prod.snd ++ mailboxField)).map (Prod.map Shape.ofField? id) =
      some (some ⟨"mail", ⟨"Mailbox", []⟩, some "Where letters go."⟩, []) ∧
    ((Declaration.namedField (Grammar.upTo 4)).run
        (joinedAttributes.flatMap Prod.snd ++ mailboxField)).map (Prod.map Shape.ofField? id) =
      some (some ⟨"mail", ⟨"Mailbox", []⟩, some "Where letters go."⟩, []) ∧
    ((Declaration.enumVariant (Grammar.upTo 4)).run
        ((serdeList [.word ⟨"skip", rfl⟩]).2 ++ [.word ⟨"Closed", rfl⟩])).map
          (Prod.map Shape.nameOfVariant? id) = some (none, []) := by
  -- the attributes are read in both spellings, and leave the same tokens
  have hspread : (Attribute.outer (Grammar.upTo 4)).run
      (spreadAttributes.flatMap Prod.snd ++ mailboxField) =
        some (spreadAttributes.map Prod.fst, mailboxField) := rfl
  have hjoined : (Attribute.outer (Grammar.upTo 4)).run
      (joinedAttributes.flatMap Prod.snd ++ mailboxField) =
        some (joinedAttributes.map Prod.fst, mailboxField) := rfl
  obtain ⟨hfield, -, hrearranged⟩ := shape_of_setBy setBy_spreadAttributes hspread
  obtain ⟨f, hf, hname, htype, hdoc⟩ : ∃ f, (Declaration.namedField (Grammar.upTo 4)).run
      (spreadAttributes.flatMap Prod.snd ++ mailboxField) = some (f, []) ∧
      f.name = some "mailbox" ∧ f.type = ⟨"Mailbox", []⟩ ∧
      f.description = some "Where letters go." := ⟨_, rfl, rfl, rfl, rfl⟩
  obtain ⟨name, hname', hshape⟩ := hfield f [] hf
  cases hname.symm.trans hname'
  rw [htype, hdoc] at hshape
  -- the field is named by its attribute
  have hmail : ((Declaration.namedField (Grammar.upTo 4)).run
      (spreadAttributes.flatMap Prod.snd ++ mailboxField)).map (Prod.map Shape.ofField? id) =
        some (some ⟨"mail", ⟨"Mailbox", []⟩, some "Where letters go."⟩, []) := by
    rw [hf, Option.map_some, Prod.map_apply, hshape]
    rfl
  have hsame := hrearranged _ _ _ setBy_joinedAttributes hjoined (by decide) rfl rfl
  -- the variant is a case of its own, with an attribute that leaves it out
  have hskip : SetBy (Grammar.upTo 4) [(serdeList [.word ⟨"skip", rfl⟩]).1] ([.skip] ++ []) :=
    .list rfl rfl (.last _) (.cons (.skip _ rfl) .nil) .nil
  obtain ⟨v, hv⟩ : ∃ v, (Declaration.enumVariant (Grammar.upTo 4)).run
      ((serdeList [.word ⟨"skip", rfl⟩]).2 ++ [.word ⟨"Closed", rfl⟩]) = some (v, []) := ⟨_, rfl⟩
  have hclosed : (Attribute.outer (Grammar.upTo 4)).run
      ((serdeList [.word ⟨"skip", rfl⟩]).2 ++ [.word ⟨"Closed", rfl⟩]) =
        some ([(serdeList [.word ⟨"skip", rfl⟩]).1], [.word ⟨"Closed", rfl⟩]) := rfl
  have hvariant := (shape_of_setBy hskip hclosed).2.1 v [] hv
  refine ⟨setBy_spreadAttributes, hspread, hmail, hsame.1.trans hmail, ?_⟩
  rw [hv, Option.map_some, Prod.map_apply, hvariant]
  rfl

end mailbox

end EndpointDocs.Source
