import SimScript.Config.Tree
import SimScript.Store.Basic

/-!
# Values from config values

Config values are trees of their own; scripts get them as numbers, texts and new
arrays.
-/

namespace SimScript.Store

mutual

def ofConfig (store : Store) : ConfigValue → Value × Store
  | .number value => (.scalar value, store)
  | .text content => (.text content, store)
  | .array items =>
      let (values, store) := store.ofConfigs items
      store.newArray values.toArray

def ofConfigs (store : Store) : List ConfigValue → List Value × Store
  | [] => ([], store)
  | item :: items =>
      let (value, store) := store.ofConfig item
      let (values, store) := store.ofConfigs items
      (value :: values, store)

end

end SimScript.Store
