import OpenApiTs.Main
import OpenApiTs.Proofs.Generation.Imports
import OpenApiTs.Proofs.Generation.SharedAliases
import OpenApiTs.Proofs.Generation.Trace
import OpenApiTs.Proofs.Output.Bindings
import OpenApiTs.Proofs.Output.BlockNames
import OpenApiTs.Proofs.Output.Fitting
import OpenApiTs.Proofs.Output.Groups
import OpenApiTs.Proofs.Reference.Endpoints
import OpenApiTs.Proofs.Reference.Linked
import OpenApiTs.Proofs.Reference.Moved
import OpenApiTs.Proofs.Reference.Required
import OpenApiTs.Proofs.Schema.Claims
import OpenApiTs.Proofs.Schema.Linking
import OpenApiTs.Proofs.Schema.Recovered
import OpenApiTs.Proofs.Schema.Restored
import OpenApiTs.Proofs.Swagger.Accepted
import OpenApiTs.Proofs.Swagger.Bodies
import OpenApiTs.Proofs.Swagger.Parameters
import OpenApiTs.Proofs.Swagger.Placed
import OpenApiTs.Proofs.Swagger.Retargeted
import OpenApiTs.Proofs.Text.Renamed
import OpenApiTs.Proofs.Schema.Recast
import OpenApiTs.Proofs.Schema.Keywords
import OpenApiTs.Proofs.Endpoint.Inline
import OpenApiTs.Proofs.Endpoint.Payload
import OpenApiTs.Proofs.Definitions.Rewritten
import OpenApiTs.Proofs.Definitions.Collected
import OpenApiTs.Proofs.Definitions.Positions
import OpenApiTs.Proofs.Schema.Titled
import OpenApiTs.Proofs.Schema.Anonymous
import OpenApiTs.Proofs.Schema.Failing
import OpenApiTs.Proofs.Schema.Joined
import OpenApiTs.Proofs.Endpoint.Undescribed
import OpenApiTs.Proofs.TypeScript.Heads
import OpenApiTs.Proofs.Schema.Described
import OpenApiTs.Proofs.Output.SharedFile
import OpenApiTs.Proofs.Output.SharedOrder
import OpenApiTs.Proofs.Path.Relative
import OpenApiTs.Proofs.Operation.Parameters
import OpenApiTs.Proofs.Endpoint.Lists
import OpenApiTs.Proofs.Endpoint.Layers
import OpenApiTs.Proofs.Schema.Legal
import OpenApiTs.Proofs.TypeScript.Comments
import OpenApiTs.Proofs.Workspace.Output
import OpenApiTs.Proofs.Schema.Nested
import OpenApiTs.Proofs.Schema.Members
import OpenApiTs.Proofs.Output.Pieces
