import IntegrationCompiler.Field.Basic

/-!
# Finding and changing fields

Main definitions:

* `Field.preorder` — all fields of a list, each before its children;
* `Field.find?`, `Field.updateFirst` — the first field with a key, at any depth;
* `Field.mapLeaves` — a change to every field without children;
* `Field.assign` — a new value for one attribute, after which the rule of shapes is checked again.
-/

namespace IntegrationCompiler.Field

mutual

/-- A field and everything under it. -/
def withDescendants : Field → List Field
  | f@⟨_, _, _, children, _, _, _, _, _, _⟩ => f :: preorder children

/-- All fields, each before its children. -/
def preorder : List Field → List Field
  | [] => []
  | f :: rest => f.withDescendants ++ preorder rest

end

/-- The first field with the given key, at any depth. -/
def find? (fields : List Field) (key : String) : Option Field :=
  (preorder fields).find? (·.key == key)

mutual

/-- The field after a change to the first field with the key, at any depth of it; none if there is
no such field. -/
def updateIn? (key : String) (change : Field → Field) : Field → Option Field
  | f@⟨k, _, _, children, _, _, _, _, _, _⟩ =>
    if k == key then some (change f)
    else (updateFirst? key change children).map fun cs => { f with children := cs }

/-- The fields after a change to the first one with the key; none if there is no such field. -/
def updateFirst? (key : String) (change : Field → Field) : List Field → Option (List Field)
  | [] => none
  | f :: rest =>
    match updateIn? key change f with
    | some g => some (g :: rest)
    | none => (updateFirst? key change rest).map (f :: ·)

end

/-- The fields after a change to the first one with the key, at any depth. -/
def updateFirst (key : String) (change : Field → Field) (fields : List Field) : List Field :=
  (updateFirst? key change fields).getD fields

mutual

/-- A field after a change to every field without children in it. -/
def mapLeaf (change : Field → Field) : Field → Field
  | f@⟨_, _, _, children, _, _, _, _, _, _⟩ =>
    if children.isEmpty then change f else { f with children := mapLeaves change children }

/-- Fields after a change to every field without children. -/
def mapLeaves (change : Field → Field) : List Field → List Field
  | [] => []
  | f :: rest => mapLeaf change f :: mapLeaves change rest

end

/-- The field with a value of the right kind for one attribute; shapes are not looked at. -/
def withAttribute (f : Field) (name : String) (v : Value) : Checked Field :=
  let put {α : Type} (read : Value → Checked α) (change : α → Field) : Checked Field :=
    (change <$> read v).under (.key name)
  match name with
  | "key" => put Value.asText fun x => { f with key := x }
  | "label" => put Value.asText fun x => { f with label := x }
  | "type" => put (Value.asOptional (Value.asOneOf FieldType.ofName?)) fun x => { f with type := x }
  | "children" => put (Value.asList read) fun x => { f with children := x }
  | "help_text" => put (Value.asOptional Value.asText) fun x => { f with helpText := x }
  | "required" => put Value.asBool fun x => { f with required := x }
  | "choices" =>
    put (Value.asOptional (Value.asList Value.asText)) fun x => { f with choices := x }
  | "default" => put (Value.asOptional Value.asText) fun x => { f with default := x }
  | "placeholder" => put (Value.asOptional Value.asText) fun x => { f with placeholder := x }
  | "dynamic" => put (Value.asOptional Binding.read) fun x => { f with dynamic := x }
  | _ => (Checked.fail .attribute).under (.key name)

/-- Assigns an attribute: what comes of it, and the field afterwards. A value of the wrong kind
changes nothing; a value that breaks the rule of shapes stays. -/
def assign (f : Field) (name : String) (v : Value) : Checked Field × Field :=
  match f.withAttribute name v with
  | .bad issues => (.bad issues, f)
  | .ok g => (g.checked, g)

end IntegrationCompiler.Field
