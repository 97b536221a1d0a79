import AgenticLocalApp.Transport.HttpBase

/-!
# Templates of the templated provider

A template is read once: what stands in it are the references to be replaced and the characters in
between, whatever the values are.  Every reference is replaced by its value, and no value is read
again.
-/

namespace AgenticLocalApp

open Prog

namespace Templates

/-! ## References -/

/-- `ALL_PLACEHOLDERS`, sorted. -/
def allPlaceholders : List String :=
  ["after", "conversation_id", "instructions", "message_id", "message_json", "message_type",
    "metadata_json", "token", "user_id"]

/-- `OBJECT_PLACEHOLDERS`. -/
def objectPlaceholders : List String := ["metadata_json", "message_json"]

/-- What a template refers to. -/
inductive Reference where
  /-- `${env:VAR}`. -/
  | env (name : Text)
  /-- A placeholder in braces. -/
  | placeholder (name : String)

def isNameStart (c : Char) : Bool := c.isAlpha || c == '_'

def isNameChar (c : Char) : Bool := c.isAlphanum || c == '_'

/-- `_ENV_PATTERN` at the start of a text: the name, and what follows. -/
def envAt : Text → Option (Text × Text)
  | '$' :: '{' :: 'e' :: 'n' :: 'v' :: ':' :: rest =>
    match rest.dropWhile isNameChar with
    | '}' :: after =>
      if (rest.takeWhile isNameChar).head?.any isNameStart then
        some (rest.takeWhile isNameChar, after)
      else none
    | _ => none
  | _ => none

/-- `_PLACEHOLDER_PATTERN` at the start of a text. -/
def placeholderAt : Text → Option (String × Text)
  | '{' :: rest =>
    (allPlaceholders.find? fun name => (name.toList ++ ['}']).isPrefixOf rest).map fun name =>
      (name, rest.drop (name.toList.length + 1))
  | _ => none

/-- `_TEMPLATE_RE` at the start of a text. -/
def referenceAt (text : Text) : Option (Reference × Text) :=
  match envAt text with
  | some (name, rest) => some (.env name, rest)
  | none => (placeholderAt text).map fun found => (.placeholder found.1, found.2)

/-- `_TEMPLATE_RE.sub`; the first `skip` characters belong to a reference that was replaced. -/
def sub (replace : Reference → Except Exc Text) : (skip : Nat) → Text → Except Exc Text
  | _, [] => .ok []
  | skip + 1, _ :: cs => sub replace skip cs
  | 0, c :: cs =>
    match referenceAt (c :: cs) with
    | some (reference, rest) => do
      let value ← replace reference
      let rendered ← sub replace (cs.length - rest.length) cs
      return value ++ rendered
    | none => do
      let rendered ← sub replace 0 cs
      return c :: rendered

/-! ## Percent encoding -/

/-- The characters that `quote` never encodes. -/
def isUnreserved (c : Char) : Bool := c.isAlphanum || c ∈ ['_', '.', '-', '~']

def hexDigit (n : Nat) : Char := "0123456789ABCDEF".toList.getD n '0'

def percent (b : UInt8) : Text := ['%', hexDigit (b.toNat / 16), hexDigit (b.toNat % 16)]

/-- `quote(text, safe="")`. -/
def quote (text : Text) : Text :=
  text.flatMap fun c => if isUnreserved c then [c] else (String.utf8EncodeChar c).flatMap percent

/-! ## The renderer -/

/-- `ConfigError`. -/
def configError (code : String) (details : List (String × Json)) : Exc :=
  .app (mkError .systemError code "Config" details .critical false false)

/-- `_Renderer`. -/
structure Renderer where
  operation : String
  values : List (String × Json)
  tokenEnv : String
  token : Option Text
  /-- `os.environ`. -/
  environ : Text → Option Text

namespace Renderer

/- `str` of a value that is no string, and `str.lower`. -/
variable (str : Json → Text) (lower : Text → Text) (r : Renderer)

/-- `_env`. -/
def env (name : Text) : Except Exc Text :=
  match r.environ name with
  | some value => .ok value
  | none => .error (configError "TRANSPORT_ENV_MISSING"
      [("variable", .str (.ofList name)), ("operation", .str r.operation)])

/-- `_text_value`. -/
def textValue (name : String) : Except Exc Text :=
  if name = "token" then
    match r.token with
    | some token => .ok token
    | none => .error (configError "TRANSPORT_ENV_MISSING"
        [("variable", .str r.tokenEnv), ("operation", .str r.operation),
          ("placeholder", .str "token")])
  else
    match r.values.lookup name with
    | none => .error (.keyError name)
    | some value =>
      if name ∈ objectPlaceholders then .ok value.canonical
      else
        match value with
        | .null => .ok []
        | .str s => .ok s.toList
        | value => .ok (str value)

/-- `replace` of `text`. -/
def replace (encode : Bool) : Reference → Except Exc Text
  | .env name => r.env name
  | .placeholder name =>
    (r.textValue str name).map fun value => if encode then quote value else value

/-- `text`. -/
def text (encode : Bool) (template : Text) : Except Exc Text :=
  sub (r.replace str encode) 0 template

/-- `leaf`. -/
def leaf (template : Text) : Except Exc Json :=
  match placeholderAt template with
  | some (name, []) =>
    if name ∈ objectPlaceholders then
      match r.values.lookup name with
      | some value => .ok value
      | none => .error (.keyError name)
    else (r.text str false template).map fun rendered => .str (.ofList rendered)
  | _ => (r.text str false template).map fun rendered => .str (.ofList rendered)

mutual

/-- `body`. -/
def body : Json → Except Exc Json
  | .str s => r.leaf str s.toList
  | .obj fields => (bodyFields fields).map .obj
  | .arr items => (bodyItems items).map .arr
  | template => .ok template

def bodyItems : List Json → Except Exc (List Json)
  | [] => .ok []
  | x :: xs => do
    let filled ← body x
    let rest ← bodyItems xs
    return filled :: rest

def bodyFields : List (String × Json) → Except Exc (List (String × Json))
  | [] => .ok []
  | (k, v) :: fields => do
    let filled ← body v
    let rest ← bodyFields fields
    return (k, filled) :: rest

end

/-- `merged[key] = item`: the entry of a key stays where it is. -/
def setHeader (key : Text) (item : Text × Text) :
    List (Text × Text × Text) → List (Text × Text × Text)
  | [] => [(key, item)]
  | (k, old) :: rest => if k = key then (k, item) :: rest else (k, old) :: setHeader key item rest

/-- `headers`. -/
def headers (layers : List (List (Text × Text))) : Except Exc (List (Text × Text)) := do
  let merged ← layers.flatten.foldlM (fun merged header => do
    let value ← r.text str false header.2
    return setHeader (lower header.1) (header.1, value) merged) []
  return merged.map Prod.snd

end Renderer

/-! ## What a template consists of -/

def Reference.source : Reference → Text
  | .env name => "$\x7benv:".toList ++ name ++ ['}']
  | .placeholder name => '{' :: name.toList ++ ['}']

/-- A part of a template. -/
inductive Segment where
  | literal (c : Char)
  | placed (reference : Reference)

def Segment.source : Segment → Text
  | .literal c => [c]
  | .placed reference => reference.source

def Segment.render (replace : Reference → Except Exc Text) : Segment → Except Exc Text
  | .literal c => .ok [c]
  | .placed reference => replace reference

/-- The parts of a template, read from the left, without a look at any value. -/
inductive Parsed : Text → List Segment → Prop
  | nil : Parsed [] []
  | literal {c : Char} {cs : Text} {segments : List Segment} (h : referenceAt (c :: cs) = none) :
    Parsed cs segments → Parsed (c :: cs) (.literal c :: segments)
  | placed {reference : Reference} {rest : Text} {segments : List Segment}
    (h : referenceAt (reference.source ++ rest) = some (reference, rest)) :
    Parsed rest segments → Parsed (reference.source ++ rest) (.placed reference :: segments)

def segmentsFrom : (skip : Nat) → Text → List Segment
  | _, [] => []
  | skip + 1, _ :: cs => segmentsFrom skip cs
  | 0, c :: cs =>
    match referenceAt (c :: cs) with
    | some (reference, rest) => .placed reference :: segmentsFrom (cs.length - rest.length) cs
    | none => .literal c :: segmentsFrom 0 cs

def segments (template : Text) : List Segment := segmentsFrom 0 template

theorem Parsed.source {text : Text} {segments : List Segment} (h : Parsed text segments) :
    segments.flatMap Segment.source = text := by
  induction h with
  | nil => rfl
  | literal _ _ ih =>
    rw [List.flatMap_cons, ih, Segment.source]
    rfl
  | placed _ _ ih => rw [List.flatMap_cons, ih, Segment.source]

/-- The parts of a template are rendered one by one and put together. -/
theorem sub_eq (replace : Reference → Except Exc Text) (skip : Nat) (text : Text) :
    sub replace skip text =
      ((segmentsFrom skip text).mapM (Segment.render replace)).map List.flatten := by
  fun_induction segmentsFrom skip text with
  | case1 skip => cases skip <;> rfl
  | case2 skip c cs ih => exact ih
  | case3 c cs reference rest h ih =>
    rw [sub, h, List.mapM_cons]
    dsimp only
    have hrender : Segment.render replace (.placed reference) = replace reference := rfl
    rw [ih, hrender]
    cases replace reference with
    | error e => rfl
    | ok value =>
      cases (segmentsFrom (cs.length - rest.length) cs).mapM (Segment.render replace) <;> rfl
  | case4 c cs h ih =>
    rw [sub, h, List.mapM_cons]
    dsimp only
    rw [ih]
    cases (segmentsFrom 0 cs).mapM (Segment.render replace) <;> rfl

/-! ## Values in a URL -/

/-- The digit that a character of a percent sequence stands for. -/
def hexValue (c : Char) : Nat := "0123456789ABCDEF".toList.idxOf c

theorem hexValue_hexDigit : ∀ n < 16, hexValue (hexDigit n) = n := by decide

/-- What separates the parts of a URL: its path, its query, its fragment, the items of the query. -/
def isSeparator (c : Char) : Bool := c ∈ [':', '/', '?', '#', '[', ']', '@', '&', '=', ';', '+']

/-- What a part of a template brings into a URL that is not the value of a placeholder. -/
def Segment.written (environ : Text → Option Text) : Segment → Text
  | .literal c => [c]
  | .placed (.env name) => (environ name).getD []
  | .placed (.placeholder _) => []

theorem map_eq_ok {ε α β : Type} {f : α → β} {x : Except ε α} {b : β} (h : x.map f = .ok b) :
    ∃ a, x = .ok a ∧ f a = b := by
  cases x with
  | error e => cases h
  | ok a => exact ⟨a, rfl, Except.ok.inj h⟩

namespace Renderer

variable {str : Json → Text} {lower : Text → Text} {r : Renderer}

/-- A text is its template with every reference replaced once. -/
theorem text_eq (encode : Bool) (template : Text) : r.text str encode template =
    ((segments template).mapM (Segment.render (r.replace str encode))).map List.flatten :=
  sub_eq _ 0 template

/-- The text that a reference stands for: a variable of the environment, the token, the canonical
text of an object, or the text of any other value, which is empty for none. -/
inductive Means (str : Json → Text) (r : Renderer) : Reference → Text → Prop
  | env {name value : Text} (h : r.environ name = some value) : Means str r (.env name) value
  | token {value : Text} (h : r.token = some value) : Means str r (.placeholder "token") value
  | object {name : String} {value : Json} (hname : name ∈ objectPlaceholders)
    (h : r.values.lookup name = some value) : Means str r (.placeholder name) value.canonical
  | null {name : String} (htoken : name ≠ "token") (hname : name ∉ objectPlaceholders)
    (h : r.values.lookup name = some .null) : Means str r (.placeholder name) []
  | text {name s : String} (htoken : name ≠ "token") (hname : name ∉ objectPlaceholders)
    (h : r.values.lookup name = some (.str s)) : Means str r (.placeholder name) s.toList
  | other {name : String} {value : Json} (htoken : name ≠ "token")
    (hname : name ∉ objectPlaceholders) (h : r.values.lookup name = some value)
    (hnull : value ≠ .null) (htext : ∀ s, value ≠ .str s) :
    Means str r (.placeholder name) (str value)

/-- What stands in a rendered text for a part of its template: a character for itself, a reference
for what it means, which is encoded in a URL unless it comes from the environment. -/
def Placed (str : Json → Text) (r : Renderer) (encode : Bool) : Segment → Text → Prop
  | .literal c, value => value = [c]
  | .placed (.env name), value => Means str r (.env name) value
  | .placed (.placeholder name), value => ∃ plain, Means str r (.placeholder name) plain ∧
      value = if encode then quote plain else plain

theorem textValue_iff {name : String} {value : Text} :
    r.textValue str name = .ok value ↔ Means str r (.placeholder name) value := by
  unfold textValue
  constructor
  · intro h
    split at h
    · rename_i htoken
      subst htoken
      split at h
      · rename_i token heq
        cases h
        exact .token heq
      · cases h
    · rename_i htoken
      split at h
      · cases h
      · rename_i found hfound
        split at h
        · rename_i hname
          cases h
          exact .object hname hfound
        · rename_i hname
          split at h
          · cases h
            exact .null htoken hname hfound
          · cases h
            exact .text htoken hname hfound
          · rename_i hnull htext
            cases h
            exact .other htoken hname hfound hnull htext
  · intro h
    cases h with
    | token h => rw [if_pos rfl, h]
    | object hname h =>
      have hne : name ≠ "token" := by
        rintro rfl
        exact absurd hname (by decide)
      rw [if_neg hne, h]
      exact if_pos hname
    | null htoken hname h =>
      rw [if_neg htoken, h]
      exact if_neg hname
    | text htoken hname h =>
      rw [if_neg htoken, h]
      exact if_neg hname
    | other htoken hname h hnull htext =>
      rw [if_neg htoken, h]
      dsimp only
      rw [if_neg hname]
      split
      · exact absurd rfl hnull
      · exact absurd rfl (htext _)
      · rfl

theorem render_iff {encode : Bool} {segment : Segment} {value : Text} :
    segment.render (r.replace str encode) = .ok value ↔ r.Placed str encode segment value := by
  cases segment with
  | literal c =>
    constructor
    · intro h
      cases h
      rfl
    · rintro rfl
      rfl
  | placed reference =>
    cases reference with
    | env name =>
      change r.env name = .ok value ↔ Means str r (.env name) value
      unfold env
      constructor
      · intro h
        split at h
        · rename_i found hfound
          cases h
          exact .env hfound
        · cases h
      · rintro ⟨h⟩
        rw [h]
    | placeholder name =>
      change (r.textValue str name).map _ = .ok value ↔ _
      constructor
      · intro h
        obtain ⟨plain, hplain, rfl⟩ := map_eq_ok h
        exact ⟨plain, textValue_iff.1 hplain, rfl⟩
      · rintro ⟨plain, hplain, rfl⟩
        rw [textValue_iff.2 hplain]
        rfl

theorem mapM_iff {encode : Bool} {parts : List Segment} {values : List Text} :
    parts.mapM (Segment.render (r.replace str encode)) = .ok values ↔
      List.Forall₂ (r.Placed str encode) parts values := by
  induction parts generalizing values with
  | nil =>
    constructor
    · intro h
      cases h
      exact .nil
    · rintro ⟨⟩
      rfl
  | cons segment parts ih =>
    rw [List.mapM_cons]
    constructor
    · intro h
      obtain ⟨value, hvalue, h⟩ := bind_eq_ok.1 h
      obtain ⟨rest, hrest, h⟩ := bind_eq_ok.1 h
      cases h
      exact .cons (render_iff.1 hvalue) (ih.1 hrest)
    · rintro (_ | ⟨hvalue, hrest⟩)
      rw [render_iff.2 hvalue, ih.2 hrest]
      rfl

/-- A text is its template with every reference replaced once by what it means. -/
theorem text_iff {encode : Bool} {template rendered : Text} :
    r.text str encode template = .ok rendered ↔
      ∃ values, List.Forall₂ (r.Placed str encode) (segments template) values ∧
        rendered = values.flatten := by
  rw [text_eq]
  constructor
  · intro h
    obtain ⟨values, hvalues, rfl⟩ := map_eq_ok h
    exact ⟨values, mapM_iff.1 hvalues, rfl⟩
  · rintro ⟨values, hvalues, rfl⟩
    rw [mapM_iff.2 hvalues]
    rfl

end Renderer

/-! ## Filled bodies -/

mutual

/-- The body with each of its text leaves filled, and nothing else changed. -/
def Filled (leaf : Text → Except Exc Json) : Json → Json → Prop
  | .str s, filled => leaf s.toList = .ok filled
  | .arr items, filled => ∃ rest, FilledItems leaf items rest ∧ filled = .arr rest
  | .obj fields, filled => ∃ rest, FilledFields leaf fields rest ∧ filled = .obj rest
  | template, filled => filled = template

def FilledItems (leaf : Text → Except Exc Json) : List Json → List Json → Prop
  | [], filled => filled = []
  | x :: xs, filled => ∃ y rest, Filled leaf x y ∧ FilledItems leaf xs rest ∧ filled = y :: rest

def FilledFields (leaf : Text → Except Exc Json) :
    List (String × Json) → List (String × Json) → Prop
  | [], filled => filled = []
  | (k, v) :: fields, filled => ∃ w rest, Filled leaf v w ∧ FilledFields leaf fields rest ∧
      filled = (k, w) :: rest

end

namespace Renderer

variable {str : Json → Text} {lower : Text → Text} {r : Renderer}

mutual

theorem body_iff : ∀ template filled : Json,
    r.body str template = .ok filled ↔ Filled (r.leaf str) template filled
  | .str s, filled => Iff.rfl
  | .arr items, filled => by
    rw [body, Filled]
    constructor
    · intro h
      obtain ⟨rest, hrest, rfl⟩ := map_eq_ok h
      exact ⟨rest, (bodyItems_iff items rest).1 hrest, rfl⟩
    · rintro ⟨rest, hrest, rfl⟩
      rw [(bodyItems_iff items rest).2 hrest]
      rfl
  | .obj fields, filled => by
    rw [body, Filled]
    constructor
    · intro h
      obtain ⟨rest, hrest, rfl⟩ := map_eq_ok h
      exact ⟨rest, (bodyFields_iff fields rest).1 hrest, rfl⟩
    · rintro ⟨rest, hrest, rfl⟩
      rw [(bodyFields_iff fields rest).2 hrest]
      rfl
  | .null, filled | .bool _, filled | .int _, filled | .float _, filled => by
    rw [body, Filled, Except.ok.injEq, eq_comm]
    all_goals exact nofun

theorem bodyItems_iff : ∀ items filled : List Json,
    r.bodyItems str items = .ok filled ↔ FilledItems (r.leaf str) items filled
  | [], filled => by
    rw [bodyItems, FilledItems, Except.ok.injEq, eq_comm]
  | x :: xs, filled => by
    rw [bodyItems, FilledItems]
    constructor
    · intro h
      obtain ⟨y, hy, h⟩ := bind_eq_ok.1 h
      obtain ⟨rest, hrest, h⟩ := bind_eq_ok.1 h
      cases h
      exact ⟨y, rest, (body_iff x y).1 hy, (bodyItems_iff xs rest).1 hrest, rfl⟩
    · rintro ⟨y, rest, hy, hrest, rfl⟩
      rw [(body_iff x y).2 hy, (bodyItems_iff xs rest).2 hrest]
      rfl

theorem bodyFields_iff : ∀ fields filled : List (String × Json),
    r.bodyFields str fields = .ok filled ↔ FilledFields (r.leaf str) fields filled
  | [], filled => by
    rw [bodyFields, FilledFields, Except.ok.injEq, eq_comm]
  | (k, v) :: fields, filled => by
    rw [bodyFields, FilledFields]
    constructor
    · intro h
      obtain ⟨w, hw, h⟩ := bind_eq_ok.1 h
      obtain ⟨rest, hrest, h⟩ := bind_eq_ok.1 h
      cases h
      exact ⟨w, rest, (body_iff v w).1 hw, (bodyFields_iff fields rest).1 hrest, rfl⟩
    · rintro ⟨w, rest, hw, hrest, rfl⟩
      rw [(body_iff v w).2 hw, (bodyFields_iff fields rest).2 hrest]
      rfl

end

end Renderer

/-! ## Merged headers -/

theorem Renderer.mem_setHeader {key k : Text} {item x : Text × Text}
    {merged : List (Text × Text × Text)} (hkeys : (merged.map Prod.fst).Nodup) :
    (k, x) ∈ setHeader key item merged ↔ k = key ∧ x = item ∨ k ≠ key ∧ (k, x) ∈ merged := by
  induction merged with
  | nil => simp [setHeader]
  | cons entry rest ih =>
    obtain ⟨k₀, old⟩ := entry
    rw [List.map_cons, List.nodup_cons] at hkeys
    have hih := ih hkeys.2
    unfold setHeader
    by_cases hk : k₀ = key
    · subst hk
      have habsent : ∀ y, (k₀, y) ∉ rest := fun y hy =>
      hkeys.1 (List.mem_map.2 ⟨_, hy, rfl⟩)
      rw [if_pos rfl]
      by_cases hkey : k = k₀
      · subst hkey
        simp [habsent]
      · simp [hkey]
    · rw [if_neg hk, List.mem_cons, hih, List.mem_cons, Prod.mk.injEq]
      constructor
      · rintro (⟨rfl, rfl⟩ | ⟨rfl, rfl⟩ | ⟨hne, hmem⟩)
        · exact .inr ⟨hk, .inl ⟨rfl, rfl⟩⟩
        · exact .inl ⟨rfl, rfl⟩
        · exact .inr ⟨hne, .inr hmem⟩
      · rintro (⟨rfl, rfl⟩ | ⟨hne, hentry | hmem⟩)
        · exact .inr (.inl ⟨rfl, rfl⟩)
        · exact .inl hentry
        · exact .inr (.inr ⟨hne, hmem⟩)

theorem Renderer.nodup_setHeader {key : Text} {item : Text × Text}
    {merged : List (Text × Text × Text)} (hkeys : (merged.map Prod.fst).Nodup) :
    ((setHeader key item merged).map Prod.fst).Nodup := by
  induction merged with
  | nil => simp [setHeader]
  | cons entry rest ih =>
    obtain ⟨k₀, old⟩ := entry
    have hrest := List.nodup_cons.1 hkeys
    unfold setHeader
    split
    · exact hkeys
    · rename_i hk
      refine List.nodup_cons.2 ⟨fun hmem => ?_, ih hrest.2⟩
      obtain ⟨⟨k, x⟩, hx, hkx⟩ := List.mem_map.1 hmem
      change k = k₀ at hkx
      subst hkx
      rcases (mem_setHeader hrest.2).1 hx with ⟨rfl, -⟩ | ⟨-, hx⟩
      · exact hk rfl
      · exact hrest.1 (List.mem_map.2 ⟨_, hx, rfl⟩)

/-- What is merged of some headers: under each name in lower case the last header that has it, its
value rendered. -/
structure MergedOf (lower : Text → Text) (text : Text → Except Exc Text)
    (headers : List (Text × Text)) (merged : List (Text × Text × Text)) : Prop where
  keys : (merged.map Prod.fst).Nodup
  mem : ∀ key name value, (key, name, value) ∈ merged ↔ ∃ before template after,
    headers = before ++ (name, template) :: after ∧ key = lower name ∧
      (∀ h ∈ after, lower h.1 ≠ key) ∧ text template = .ok value

theorem MergedOf.step {lower : Text → Text} {text : Text → Except Exc Text}
    {headers : List (Text × Text)} {merged : List (Text × Text × Text)} {header : Text × Text}
    {value : Text} (h : MergedOf lower text headers merged) (hvalue : text header.2 = .ok value) :
    MergedOf lower text (headers ++ [header])
      (Renderer.setHeader (lower header.1) (header.1, value) merged) := by
  refine ⟨Renderer.nodup_setHeader h.keys, fun key name rendered => ?_⟩
  rw [Renderer.mem_setHeader h.keys]
  constructor
  · rintro (⟨rfl, hitem⟩ | ⟨hne, hmem⟩)
    · obtain ⟨rfl, rfl⟩ := Prod.mk.inj hitem
      exact ⟨headers, header.2, [], rfl, rfl, fun x hx => (by cases hx), hvalue⟩
    · obtain ⟨before, template, after, rfl, hkey, hlater, htext⟩ := (h.mem _ _ _).1 hmem
      refine ⟨before, template, after ++ [header], by simp, hkey, fun x hx => ?_, htext⟩
      rcases List.mem_append.1 hx with hx | hx
      · exact hlater x hx
      · rw [List.mem_singleton.1 hx]
        exact Ne.symm hne
  · rintro ⟨before, template, after, hsplit, rfl, hlater, htext⟩
    rcases List.eq_nil_or_concat after with rfl | ⟨init, x, rfl⟩
    · obtain ⟨-, hlast⟩ := List.append_inj' hsplit rfl
      obtain rfl := List.singleton_inj.1 hlast
      rw [hvalue] at htext
      cases htext
      exact .inl ⟨rfl, rfl⟩
    · rw [List.concat_eq_append, ← List.cons_append, ← List.append_assoc] at hsplit
      obtain ⟨hheaders, hlast⟩ := List.append_inj' hsplit rfl
      obtain rfl := List.singleton_inj.1 hlast
      refine .inr ⟨Ne.symm (hlater header (by simp)), (h.mem _ _ _).2 ?_⟩
      exact ⟨before, template, init, hheaders, rfl, fun y hy => hlater y (by simp [hy]), htext⟩

/-- The headers that are sent: of each name, whatever its case, one, the last that has it, with its
value rendered. -/
structure RenderedHeaders (lower : Text → Text) (text : Text → Except Exc Text)
    (headers rendered : List (Text × Text)) : Prop where
  names : (rendered.map fun h => lower h.1).Nodup
  mem : ∀ name value, (name, value) ∈ rendered ↔ ∃ before template after,
    headers = before ++ (name, template) :: after ∧ (∀ h ∈ after, lower h.1 ≠ lower name) ∧
      text template = .ok value

theorem MergedOf.rendered {lower : Text → Text} {text : Text → Except Exc Text}
    {headers : List (Text × Text)} {merged : List (Text × Text × Text)}
    (h : MergedOf lower text headers merged) :
    RenderedHeaders lower text headers (merged.map Prod.snd) := by
  have hkey : ∀ entry ∈ merged, lower entry.2.1 = entry.1 := by
    rintro ⟨key, name, value⟩ hmem
    obtain ⟨_, _, _, -, rfl, -⟩ := (h.mem _ _ _).1 hmem
    rfl
  refine ⟨?_, fun name value => ?_⟩
  · have hlower : (merged.map fun entry => lower entry.2.1) = merged.map Prod.fst :=
      List.map_congr_left hkey
    rw [List.map_map]
    exact hlower ▸ h.keys
  · rw [List.mem_map]
    constructor
    · rintro ⟨⟨key, _⟩, hmem, rfl⟩
      obtain ⟨before, template, after, hsplit, rfl, hlater, htext⟩ := (h.mem _ _ _).1 hmem
      exact ⟨before, template, after, hsplit, hlater, htext⟩
    · rintro ⟨before, template, after, hsplit, hlater, htext⟩
      exact ⟨(lower name, name, value),
        (h.mem _ _ _).2 ⟨before, template, after, hsplit, rfl, hlater, htext⟩, rfl⟩

/-- A value that looks like a reference stays as it is. -/
example : Renderer.text (fun _ => []) ⟨"INIT", [("user_id", .str "{token}")], "API_TOKEN",
      some "{user_id}".toList, fun _ => none⟩ false "{user_id} {token}".toList =
    .ok "{token} {user_id}".toList := rfl

end Templates

end AgenticLocalApp
