import EndpointDocs.Tags.Body
import EndpointDocs.Tags.Defaults
import EndpointDocs.Tags.Description
import EndpointDocs.DocumentInfo
import EndpointDocs.Servers

/-!
# The standard filters
-/

namespace EndpointDocs

/-- The filters of a run that names none. -/
def FilterSet.standard : FilterSet where
  operation := [Tags.summaryFilter, Tags.descriptionFilter, Tags.tagFilter,
    Tags.parameterFilter, Tags.requestBodyFilter, Tags.responseFilter]
  operationConfig := [Tags.commonAnnotationFilter]
  document := [DocumentInfo.infoFilter, Servers.serverFilter]
  documentConfig := [DocumentInfo.configFilter]

end EndpointDocs
