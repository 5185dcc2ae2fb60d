import Requisite.Catalog

/-!
# A sample catalog

A few built-in symbols of every shape: with and without an extension version, with an end, and with
a rule on arguments.
-/
namespace Requisite.Sample

open Catalog (Entry)

def entries : List (Category × String × Entry) :=
  [(.functions, "json_encode",
      { extension := "json", phpMin := .release 5 2 0, extMin := some (.release 1 2 0) }),
    (.functions, "array_column", { extension := "standard", phpMin := .release 5 5 0 }),
    (.functions, "strlen", { extension := "Core", phpMin := .release 4 0 0 }),
    (.functions, "function_exists", { extension := "Core", phpMin := .release 4 0 0 }),
    (.functions, "extension_loaded", { extension := "Core", phpMin := .release 4 0 0 }),
    (.functions, "define", { extension := "Core", phpMin := .release 4 0 0 }),
    (.functions, "ereg",
      { extension := "ereg", phpMin := .release 4 0 0, phpMax := some (.release 5 6 40) }),
    (.functions, "session_start",
      { extension := "session", phpMin := .release 4 0 0, arguments := [⟨1, .release 7 0 0⟩] }),
    (.classes, "DateTimeImmutable", { extension := "date", phpMin := .release 5 5 0 }),
    (.interfaces, "JsonSerializable", { extension := "json", phpMin := .release 5 4 0 }),
    (.interfaces, "Countable", { extension := "SPL", phpMin := .release 5 1 0 }),
    (.methods, "DateTimeImmutable::format", { extension := "date", phpMin := .release 5 5 0 }),
    (.constants, "PHP_EOL", { extension := "Core", phpMin := .release 5 0 2 }),
    (.constants, "__DIR__", { extension := "Core", phpMin := .release 5 3 0 }),
    (.extensions, "intl",
      { extension := "intl", phpMin := .release 5 3 0, extMin := some (.release 1 0 0) })]

def catalog : Except Error Catalog :=
  Catalog.ofEntries entries

end Requisite.Sample
