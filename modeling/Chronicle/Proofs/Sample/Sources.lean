import Chronicle.Enhance.Scope

/-!
# Sample sources

Short programs with an entity, as texts.
-/

namespace Chronicle

namespace Sample

/-- A note with a key and with accessors for its text. -/
def note : String :=
  "#[derive(Entity)]struct Note\x7b#[entity(entry)]e:Entry,id:Id,text:Text\x7d" ++
    "impl Note\x7bfn text(&self)->Text\x7b\x7dfn set_text(&mut self,v:Text)\x7b\x7d\x7d"

/-- A note that is an entity in one configuration only. -/
def noteVariants : String := "#[cfg(a)]#[derive(Entity)]struct Note;#[cfg(b)]struct Note;"

/-- A note, and accessors of another module's note. -/
def foreignNote : String :=
  "mod other;#[derive(Entity)]struct Note{text:Text}" ++
    "impl other::Note{fn text(&self)->Text{}fn set_text(&mut self,v:Text){}}"

/-- A note with a second property that is named as the getter of the first one. -/
def noteReaders : String :=
  "#[derive(Entity)]struct Note{text:Text,get_text:Text}" ++
    "impl Note\x7bfn text(&self)->Text\x7b\x7dfn get_text(&self)->Text\x7b\x7d" ++
    "fn set_get_text(&mut self,v:Text)\x7b\x7d\x7d"

/-- A note with a property that is named by a keyword. -/
def keywordNote : String :=
  "#[derive(Entity)]struct Note\x7br#type:Text\x7d" ++
    "impl Note\x7bfn r#type(&self)->Text\x7b\x7dfn set_type(&mut self,v:Text)\x7b\x7d\x7d"

/-- A note with a property `id` before the property that is its key. -/
def codedNote : String :=
  "#[derive(Entity)]struct Note\x7b#[entity(entry)]e:Entry,id:Id,#[entity(id)]code:Code\x7d"

/-- A note in a module, with a method of the persistence layer for everyone and one for that module. -/
def persistentNote : String :=
  "mod m\x7b#[derive(Entity)]struct Note\x7btext:Text\x7dimpl Note\x7b" ++
    "pub fn _persistence_save(&self)\x7b\x7dfn _persistence_load(&self)\x7b\x7d\x7d\x7d"

end Sample

end Chronicle
