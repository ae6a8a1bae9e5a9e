import TypeNameLint.Ban.Setting

/-!
# Ban.Builtin — the type names that are banned unless configured otherwise

The boxed primitives are replaced by their keywords; `Function`, `Object` and the empty type
literal only get an explanation.
-/

namespace TypeNameLint

def builtinRecord (lines : List String) (fixWith : Option String) : Option BanSetting :=
  some (.record ⟨some (String.intercalate "\n" lines), fixWith⟩)

/-- The entry that sends a boxed primitive to its keyword. -/
def builtinWrapper (wrapper keyword : String) : String × Option BanSetting :=
  (wrapper, builtinRecord [s!"Use {keyword} instead"] (some keyword))

def builtinAlternatives : List String :=
  ["- If you want a type meaning \"any object\", you probably want `Record<string, unknown>` instead.",
   "- If you want a type meaning \"any value\", you probably want `unknown` instead."]

/-- The built-in settings, in the order of reports. -/
def builtinSettings : BanSettings :=
  .ofList
    [builtinWrapper "String" "string",
     builtinWrapper "Boolean" "boolean",
     builtinWrapper "Number" "number",
     builtinWrapper "Symbol" "symbol",
     ("Function", builtinRecord
       ["The `Function` type accepts any function-like value.",
        "It provides no type-safety when calling the function, which can be a common source of bugs.",
        "It also accepts things like class declarations, which will throw at runtime as they will not be called with `new`.",
        "If you are expecting the function to accept certain arguments, you should explicitly define function shape."]
       none),
     ("Object", builtinRecord
       ("The `Object` type actually means \"any non-nullish value\", so it is marginally better than `unknown`."
         :: builtinAlternatives) none),
     ("\x7b\x7d", builtinRecord
       ("`\x7b\x7d` actually means \"any non-nullish value\"." :: builtinAlternatives) none)]

end TypeNameLint
